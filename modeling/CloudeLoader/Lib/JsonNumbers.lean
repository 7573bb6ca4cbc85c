import CloudeLoader.Lib.JsonText

/-!
# Numbers in JSON texts

What the reader of JSON texts gets from the decimal text of an integer: the number that was written (`parse_general`).
-/

namespace JsonText

open Decimal Number List

variable {d : Doubles} {n n' : Number} {c : UInt8} {ds : List UInt8}

/-! ### Digits -/

theorem isDigit_of_mem_numeral {a : Nat} (h : c ∈ numeral a) : isDigit c = true := by
  obtain ⟨hlow, hhigh⟩ := mem_numeral h
  simp [isDigit, UInt8.le_iff_toNat_le, hlow, hhigh]

theorem foldlM_digits {P : Number → Prop} {add : Number → UInt8 → Number}
    (hnext : ∀ n c, P n → isDigit c = true → n.next c = some (add n c) ∧ P (add n c)) (hn : P n)
    (hds : ∀ c ∈ ds, isDigit c = true) : ds.foldlM next n = some (ds.foldl add n) := by
  induction ds generalizing n with
  | nil => rfl
  | cons c ds ih =>
    obtain ⟨hc, hP⟩ := hnext n c hn (hds c mem_cons_self)
    rw [foldlM_cons, hc]
    exact ih hP fun x hx => hds x (mem_cons_of_mem c hx)

theorem foldl_addInt (n : Number) (c : UInt8) (ds : List UInt8) :
    (c :: ds).foldl addInt n = { n with phase := .int, digits := read n.digits (c :: ds) } := by
  induction ds generalizing n c with
  | nil => rfl
  | cons x ds ih => rw [foldl_cons, ih]; rfl

theorem foldl_addFrac (n : Number) (c : UInt8) (ds : List UInt8) :
    (c :: ds).foldl addFrac n =
      { n with phase := .frac, digits := read n.digits (c :: ds), scale := n.scale + (c :: ds).length } := by
  induction ds generalizing n c with
  | nil => rfl
  | cons x ds ih =>
    rw [foldl_cons, ih]
    simp only [addFrac, length_cons, mk.injEq, true_and, and_true]
    exact ⟨rfl, by omega⟩

theorem foldl_addExp (n : Number) (c : UInt8) (ds : List UInt8) :
    (c :: ds).foldl addExp n = { n with phase := .exp, exp := read n.exp (c :: ds) } := by
  induction ds generalizing n c with
  | nil => rfl
  | cons x ds ih => rw [foldl_cons, ih]; rfl

theorem foldlM_int (hn : n.phase = .int) (hds : ∀ c ∈ ds, isDigit c = true) :
    ds.foldlM next n = some (ds.foldl addInt n) := by
  refine foldlM_digits (P := fun n => n.phase = .int) ?_ hn hds
  intro n c hn hc
  simp [Number.next, hn, hc, addInt]

theorem foldlM_frac (hn : n.phase = .point ∨ n.phase = .frac) (hds : ∀ c ∈ ds, isDigit c = true) :
    ds.foldlM next n = some (ds.foldl addFrac n) := by
  refine foldlM_digits (P := fun n => n.phase = .point ∨ n.phase = .frac) ?_ hn hds
  intro n c hn hc
  obtain hn | hn := hn <;> simp [Number.next, hn, hc, addFrac]

theorem foldlM_exp (hn : n.phase = .sign ∨ n.phase = .exp) (hds : ∀ c ∈ ds, isDigit c = true) :
    ds.foldlM next n = some (ds.foldl addExp n) := by
  refine foldlM_digits (P := fun n => n.phase = .sign ∨ n.phase = .exp) ?_ hn hds
  intro n c hn hc
  obtain hn | hn := hn <;> simp [Number.next, hn, hc, addExp]

/-! ### Whole texts -/

theorem foldlM_step_number (contexts : List Context) (h : ds.foldlM next n = some n') :
    ds.foldlM (step d) ⟨contexts, .number n⟩ = some ⟨contexts, .number n'⟩ := by
  induction ds generalizing n with
  | nil =>
    cases h
    rfl
  | cons c ds ih =>
    rw [foldlM_cons] at h ⊢
    obtain ⟨n₁, hn₁, h⟩ := Option.bind_eq_some_iff.1 h
    have hstep : step d ⟨contexts, .number n⟩ c = some ⟨contexts, .number n₁⟩ := by
      simp only [step, hn₁]
    rw [hstep]
    exact ih h

theorem parse_number {negative : Bool} (hc : isDigit c = true)
    (h : (c :: ds).foldlM next (.start negative) = some n') :
    parse d ((if negative then [45] else []) ++ c :: ds) = n'.finish d := by
  have hrun : ∀ bytes, bytes.foldlM (step d) ⟨[], .value⟩ = some ⟨[], .number n'⟩ → run d bytes = n'.finish d := by
    intro bytes hbyt
    rw [run, hbyt]
    rfl
  cases negative with
  | true =>
    refine Eq.trans ?_ (hrun (45 :: c :: ds) (foldlM_step_number [] h))
    rfl
  | false =>
    obtain ⟨n₁, hn₁, hrest⟩ := Option.bind_eq_some_iff.1 ((foldlM_cons ..).symm.trans h)
    have hbeg : step d ⟨[], .value⟩ c = some ⟨[], .number n₁⟩ := by
      have hne : ∀ x : UInt8, isDigit x = false → c ≠ x := by
        rintro x hx rfl
        cases hc.symm.trans hx
      simp only [step, isBlank, begin, hne 32 rfl, hne 9 rfl, hne 10 rfl, hne 13 rfl, hne 91 rfl, hne 123 rfl, hne 34 rfl,
        hne 116 rfl, hne 102 rfl, hne 110 rfl, hne 45 rfl, hn₁, if_false, beq_iff_eq, Bool.or_eq_true, or_self, Option.map_some]
    have hmark : c ≠ 0xEF := by
      rintro rfl
      cases hc
    have hpar : parse d (c :: ds) = run d (c :: ds) := by
      unfold parse
      split <;> simp_all
    rw [if_neg (by decide), nil_append, hpar]
    refine hrun _ ?_
    rw [foldlM_cons, hbeg]
    exact foldlM_step_number [] hrest

/-! ### Integers -/

theorem next_start {negative : Bool} (hc : isDigit c = true) (hne : c ≠ 48) :
    (start negative).next c = some ((start negative).addInt c) := by
  simp [Number.next, start, hc, hne]

theorem foldlM_numeral {a : Nat} (ha : a ≠ 0) (negative : Bool) :
    (numeral a).foldlM next (.start negative) = some ⟨.int, negative, a, 0, false, 0⟩ := by
  obtain ⟨c, rest, hnum, hne⟩ := numeral_eq_cons ha
  have hdig : ∀ x ∈ c :: rest, isDigit x = true := fun x hx => isDigit_of_mem_numeral (hnum ▸ hx)
  rw [hnum, foldlM_cons, next_start (hdig c mem_cons_self) hne]
  refine (foldlM_int rfl fun x hx => hdig x (mem_cons_of_mem c hx)).trans ?_
  rw [← foldl_cons, foldl_addInt, ← hnum]
  simp only [start, read_numeral]

theorem parse_numeral {a : Nat} (ha : a < 2 ^ 63) (negative : Bool) :
    parse d ((if negative then [45] else []) ++ numeral a) = some (.num ((if negative then -1 else 1) * a)) := by
  by_cases hzero : a = 0
  · subst hzero
    have hrun : [48].foldlM next (.start negative) = some ⟨.zero, negative, 0, 0, false, 0⟩ := rfl
    rw [numeral, if_pos rfl, parse_number rfl hrun]
    simp [finish, value]
  · obtain ⟨c, rest, hnum, -⟩ := numeral_eq_cons hzero
    have hrun := foldlM_numeral hzero negative
    have hc : isDigit c = true := isDigit_of_mem_numeral (a := a) (by simp [hnum])
    rw [hnum] at hrun ⊢
    rw [parse_number hc hrun]
    have hfits : a < if negative then 2 ^ 63 + 1 else 2 ^ 64 := by
      split <;> omega
    simp only [finish, value, hfits, if_true]
    simp

/-! ### Numbers with an exponent -/

theorem foldlM_exponentText (e : Nat) (hn : n.phase = .int ∨ n.phase = .frac) (hexp : n.exp = 0) :
    (exponentText e).foldlM next n = some { n with phase := .exp, exp := e } := by
  have hdig : ∀ x ∈ (if e < 10 then [48] else []) ++ numeral e, isDigit x = true := by
    intro x hx
    obtain hx | hx := mem_append.1 hx
    · split at hx
      · rw [mem_singleton.1 hx]
        rfl
      · cases hx
    · exact isDigit_of_mem_numeral hx
  have hread : read 0 ((if e < 10 then [48] else []) ++ numeral e) = e := by
    split
    · rw [Decimal.read]
      exact read_numeral e
    · exact read_numeral e
  have hstr : (exponentText e).foldlM next n =
      ((if e < 10 then [48] else []) ++ numeral e).foldlM next { n with phase := .sign } := by
    rw [exponentText, foldlM_append]
    obtain hn | hn := hn <;> simp [Number.next, hn, more, exponent, isDigit]
  rw [hstr, foldlM_exp (.inl rfl) hdig]
  cases hlist : (if e < 10 then [48] else []) ++ numeral e with
  | nil =>
    have hlen := congrArg List.length hlist
    have hne : (numeral e).length ≠ 0 := by
      by_cases he : e = 0
      · simp [he, numeral]
      · rw [length_numeral he]
        omega
    rw [length_append, length_nil] at hlen
    omega
  | cons x xs =>
    rw [foldl_addExp, ← hlist, hexp, hread]

theorem foldlM_pointed {a : Nat} (ha : a ≠ 0) (negative : Bool) :
    ∃ phase, (phase = .int ∨ phase = .frac) ∧ (pointed (numeral a)).foldlM next (.start negative) =
      some ⟨phase, negative, a, (numeral a).length - 1, false, 0⟩ := by
  obtain ⟨c, rest, hnum, hne⟩ := numeral_eq_cons ha
  have hdig : ∀ x ∈ c :: rest, isDigit x = true := fun x hx => isDigit_of_mem_numeral (hnum ▸ hx)
  have hread : read 0 (c :: rest) = a := hnum ▸ read_numeral a
  cases rest with
  | nil =>
    refine ⟨.int, .inl rfl, ?_⟩
    have hrun := foldlM_numeral ha negative
    rw [hnum] at hrun ⊢
    exact hrun
  | cons x xs =>
    refine ⟨.frac, .inr rfl, ?_⟩
    have hpnt : ((start negative).addInt c).next 46 = some { (start negative).addInt c with phase := .point } := by
      simp [Number.next, addInt, more, isDigit]
    rw [hnum, pointed, foldlM_cons, next_start (hdig c mem_cons_self) hne, Option.bind_eq_bind,
      Option.bind_some, foldlM_cons]
    refine (foldlM_frac (.inl rfl) fun y hy => hdig y (mem_cons_of_mem c hy)).trans ?_
    rw [foldl_addFrac, ← hread]
    simp only [addInt, start, length_cons, Nat.zero_add, Nat.add_sub_cancel]
    rfl

section Scientific

variable {p a : Nat}

theorem exists_trim (hp : 0 < p) (ha : 10 ^ p ≤ a) :
    ∃ t e, t ≠ 0 ∧ scientific p a = pointed (numeral t) ++ exponentText e ∧
      t * 10 ^ e = rounded p a * 10 ^ ((numeral t).length - 1) := by
  obtain ⟨hlow, hhigh, he, hrnd⟩ := significand_spec hp ha
  have hne : (significand p a).1 ≠ 0 := by
    have : 0 < 10 ^ (p - 1) := Nat.pow_pos (by decide)
    omega
  obtain ⟨z, ht, hz⟩ := trim_spec (p - 1) (significand p a).1 hne
  refine ⟨trim (p - 1) (significand p a).1, (significand p a).2, ht, rfl, ?_⟩
  generalize trim (p - 1) (significand p a).1 = t at *
  rw [hz] at hlow hhigh hrnd
  have hzp : z < p := by
    refine (Nat.pow_lt_pow_iff_right (by decide : 1 < 10)).1 (lt_of_le_of_lt ?_ hhigh)
    exact Nat.le_mul_of_pos_left _ (Nat.pos_of_ne_zero ht)
  have hpos : 0 < 10 ^ z := Nat.pow_pos (by decide)
  have hlog : Nat.log 10 t = p - 1 - z := by
    refine Nat.log_eq_of_pow_le_of_lt_pow ?_ ?_
    · refine Nat.le_of_mul_le_mul_right ?_ hpos
      rwa [← Nat.pow_add, Nat.sub_add_cancel (by omega)]
    · refine Nat.lt_of_mul_lt_mul_right (a := 10 ^ z) ?_
      rwa [← Nat.pow_add, show p - 1 - z + 1 + z = p by omega]
  rw [length_numeral ht, Nat.add_sub_cancel, ← hrnd, Nat.mul_assoc, Nat.mul_assoc, ← Nat.pow_add, ← Nat.pow_add]
  congr 2
  omega

theorem parse_scientific (hp : 0 < p) (ha : 10 ^ p ≤ a) (negative : Bool) :
    parse d ((if negative then [45] else []) ++ scientific p a) =
      (d.nearest ((if negative then -1 else 1) * rounded p a)).map .num := by
  obtain ⟨t, e, ht, htext, hval⟩ := exists_trim hp ha
  obtain ⟨phase, hphase, hpnt⟩ := foldlM_pointed ht negative
  have hrun : (scientific p a).foldlM next (.start negative) =
      some ⟨.exp, negative, t, (numeral t).length - 1, false, e⟩ := by
    rw [htext, foldlM_append, hpnt]
    exact foldlM_exponentText e hphase rfl
  obtain ⟨c, rest, hnum, -⟩ := numeral_eq_cons ht
  have hc : isDigit c = true := isDigit_of_mem_numeral (a := t) (by simp [hnum])
  obtain ⟨ds, hds⟩ : ∃ ds, scientific p a = c :: ds := by
    rw [htext, hnum]
    cases rest with
    | nil => exact ⟨_, rfl⟩
    | cons x xs => exact ⟨_, rfl⟩
  rw [hds] at hrun ⊢
  rw [parse_number hc hrun]
  have hq : (t : ℚ) * 10 ^ e = rounded p a * 10 ^ ((numeral t).length - 1) := by exact_mod_cast hval
  have hten : (10 : ℚ) ^ ((numeral t).length - 1) ≠ 0 := by positivity
  simp only [finish, value, Bool.false_eq_true, if_false]
  rw [mul_assoc, hq, ← mul_assoc, mul_div_cancel_right₀ _ hten]

end Scientific

theorem nearest_roundedInt {p : Nat} {z : Int} (hp : 0 < p) (hlow : 10 ^ p ≤ z.natAbs) (hhigh : z.natAbs ≤ 2 ^ 53) :
    d.nearest (roundedInt p z) = some (roundedInt p z : ℚ) := by
  obtain ⟨k, hk⟩ := dvd_rounded hlow
  have hle := rounded_le hp hlow
  have heven : roundedInt p z = ((if z < 0 then -1 else 1) * (5 * k : ℕ) : ℤ) * 2 := by
    rw [roundedInt]
    split <;> omega
  have hexc := d.exact ((if z < 0 then -1 else 1) * (5 * k : ℕ)) 1 (by split <;> omega) (by decide)
  rw [heven]
  simpa using hexc

theorem parse_general {p : Nat} (hp : 0 < p) {z : Int} (hz : z.natAbs ≤ 2 ^ 53) :
    parse d (general p z) = some (.num (roundedInt p z)) := by
  have hsign : (if z < 0 then [45] else []) = if decide (z < 0) = true then [(45 : UInt8)] else [] := by simp
  rw [general, hsign]
  by_cases h : z.natAbs < 10 ^ p
  · rw [if_pos h, parse_numeral (by omega), roundedInt, rounded, if_pos h]
    simp
  · have hval : ((if decide (z < 0) = true then -1 else 1) * (rounded p z.natAbs : ℚ)) = (roundedInt p z : ℚ) := by
      simp [roundedInt]
    rw [if_neg h, parse_scientific hp (by omega), hval, nearest_roundedInt hp (by omega) hz]
    rfl

end JsonText
