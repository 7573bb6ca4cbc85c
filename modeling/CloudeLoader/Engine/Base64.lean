import CloudeLoader.Engine.Encoding
import Mathlib.Algebra.Group.Nat.Defs

/-!
# Base64 texts

`Base64Encode` on strings keeps its bits in a 32-bit integer that overflows.
-/

namespace CloudeLoader.Engine

open List Option

/-! ### Sextets -/

def sextets : Bytes → List Nat
  | [] => []
  | [a] => [a.toNat / 4, a.toNat % 4 * 16]
  | [a, b] => [a.toNat / 4, a.toNat % 4 * 16 + b.toNat / 16, b.toNat % 16 * 4]
  | a :: b :: c :: rest =>
    a.toNat / 4 :: (a.toNat % 4 * 16 + b.toNat / 16) :: (b.toNat % 16 * 4 + c.toNat / 64) :: c.toNat % 64 :: sextets rest

def octets : List Nat → Bytes
  | a :: b :: c :: d :: rest =>
    UInt8.ofNat (a * 4 + b / 16) :: UInt8.ofNat (b % 16 * 16 + c / 4) :: UInt8.ofNat (c % 4 * 64 + d) :: octets rest
  | [a, b, c] => [UInt8.ofNat (a * 4 + b / 16), UInt8.ofNat (b % 16 * 16 + c / 4)]
  | [a, b] => [UInt8.ofNat (a * 4 + b / 16)]
  | _ => []

theorem ofNat_eq_of_toNat_eq {n c} (h : n = c.toNat) : UInt8.ofNat n = c := by
  rw [h, UInt8.ofNat_toNat]

theorem octets_sextets (bytes : Bytes) : octets (sextets bytes) = bytes := by
  fun_induction sextets bytes with
  | case1 => rfl
  | case2 a =>
    have ha := a.toNat_lt
    simp only [octets, List.cons.injEq, and_true]
    exact ofNat_eq_of_toNat_eq (by omega)
  | case3 a b =>
    have ha := a.toNat_lt
    have hb := b.toNat_lt
    simp only [octets, List.cons.injEq, and_true]
    exact ⟨ofNat_eq_of_toNat_eq (by omega), ofNat_eq_of_toNat_eq (by omega)⟩
  | case4 a b c rest ih =>
    have ha := a.toNat_lt
    have hb := b.toNat_lt
    have hc := c.toNat_lt
    simp only [octets, List.cons.injEq, ih, and_true]
    exact ⟨ofNat_eq_of_toNat_eq (by omega), ofNat_eq_of_toNat_eq (by omega), ofNat_eq_of_toNat_eq (by omega)⟩

theorem lt_of_mem_sextets {bytes} : ∀ n ∈ sextets bytes, n < 64 := by
  fun_induction sextets bytes with
  | case1 => simp
  | case2 a =>
    have ha := a.toNat_lt
    simp only [forall_mem_cons, not_mem_nil, false_imp_iff, implies_true, and_true]
    omega
  | case3 a b =>
    have ha := a.toNat_lt
    have hb := b.toNat_lt
    simp only [forall_mem_cons, not_mem_nil, false_imp_iff, implies_true, and_true]
    omega
  | case4 a b c rest ih =>
    have ha := a.toNat_lt
    have hb := b.toNat_lt
    have hc := c.toNat_lt
    simp only [forall_mem_cons]
    exact ⟨by omega, by omega, by omega, by omega, ih⟩

theorem length_sextets (bytes : Bytes) : (sextets bytes).length % 4 ≠ 1 := by
  fun_induction sextets bytes with
  | case1 => simp
  | case2 a => simp
  | case3 a b => simp
  | case4 a b c rest ih =>
    simp only [length_cons]
    omega

/-! ### The encoder -/

theorem sshiftRight_mod_two_pow (val : BitVec 32) {k w} (hk : k + w ≤ 32) :
    (val.sshiftRight k).toNat % 2 ^ w = val.toNat / 2 ^ k % 2 ^ w := by
  refine Nat.eq_of_testBit_eq fun i => ?_
  rw [Nat.testBit_mod_two_pow, Nat.testBit_mod_two_pow, Nat.testBit_div_two_pow]
  by_cases hi : i < w
  · rw [BitVec.testBit_toNat, BitVec.testBit_toNat, BitVec.getLsbD_sshiftRight]
    simp [hi, Nat.add_comm i k, show ¬32 ≤ i by omega, show k + i < 32 by omega]
  · simp [hi]

theorem sshiftRight_mod (val : BitVec 32) {k} (hk : k ≤ 26) : (val.sshiftRight k).toNat % 64 = val.toNat / 2 ^ k % 64 :=
  sshiftRight_mod_two_pow val (w := 6) (by omega)

def shiftIn (val : BitVec 32) (c : UInt8) : BitVec 32 := (val <<< 8) + BitVec.ofNat 32 c.toNat

theorem toNat_shiftIn (val : BitVec 32) (c : UInt8) : (shiftIn val c).toNat = (val.toNat * 256 + c.toNat) % 2 ^ 32 := by
  have hc := c.toNat_lt
  rw [shiftIn, BitVec.toNat_add, BitVec.toNat_shiftLeft, BitVec.toNat_ofNat]
  omega

section Loop

variable (val : BitVec 32) (a : UInt8) (rest : Bytes)

theorem base64EncodeLoop_first : base64EncodeLoop val (-6) (a :: rest) =
    base64Char ((shiftIn val a).toNat / 2 ^ 2 % 64) :: base64EncodeLoop (shiftIn val a) (-4) rest := by
  have h := sshiftRight_mod (shiftIn val a) (by decide : 2 ≤ 26)
  change base64Char (((shiftIn val a).sshiftRight 2).toNat % 64) :: base64EncodeLoop (shiftIn val a) (-4) rest = _
  rw [h]

theorem base64EncodeLoop_second : base64EncodeLoop val (-4) (a :: rest) =
    base64Char ((shiftIn val a).toNat / 2 ^ 4 % 64) :: base64EncodeLoop (shiftIn val a) (-2) rest := by
  have h := sshiftRight_mod (shiftIn val a) (by decide : 4 ≤ 26)
  change base64Char (((shiftIn val a).sshiftRight 4).toNat % 64) :: base64EncodeLoop (shiftIn val a) (-2) rest = _
  rw [h]

theorem base64EncodeLoop_third : base64EncodeLoop val (-2) (a :: rest) =
    base64Char ((shiftIn val a).toNat / 2 ^ 6 % 64) :: base64Char ((shiftIn val a).toNat % 64) ::
      base64EncodeLoop (shiftIn val a) (-6) rest := by
  have h := sshiftRight_mod (shiftIn val a) (by decide : 6 ≤ 26)
  have h' := sshiftRight_mod (shiftIn val a) (by decide : 0 ≤ 26)
  rw [Nat.pow_zero, Nat.div_one] at h'
  change base64Char (((shiftIn val a).sshiftRight 6).toNat % 64) :: base64Char (((shiftIn val a).sshiftRight 0).toNat % 64) ::
    base64EncodeLoop (shiftIn val a) (-6) rest = _
  rw [h, h']

theorem base64EncodeLoop_one : base64EncodeLoop val (-4) [] = [base64Char (val.toNat % 4 * 16)] := by
  have h := sshiftRight_mod (val <<< 8) (by decide : 4 ≤ 26)
  change [base64Char (((val <<< 8).sshiftRight 4).toNat % 64)] = _
  rw [h, BitVec.toNat_shiftLeft]
  congr 2
  omega

theorem base64EncodeLoop_two : base64EncodeLoop val (-2) [] = [base64Char (val.toNat % 16 * 4)] := by
  have h := sshiftRight_mod (val <<< 8) (by decide : 6 ≤ 26)
  change [base64Char (((val <<< 8).sshiftRight 6).toNat % 64)] = _
  rw [h, BitVec.toNat_shiftLeft]
  congr 2
  omega

end Loop

theorem base64EncodeLoop_eq (val : BitVec 32) (bytes : Bytes) :
    base64EncodeLoop val (-6) bytes = (sextets bytes).map base64Char := by
  fun_induction sextets bytes generalizing val with
  | case1 => rfl
  | case2 a =>
    have ha := a.toNat_lt
    have hval := toNat_shiftIn val a
    have h1 : (shiftIn val a).toNat / 2 ^ 2 % 64 = a.toNat / 4 := by omega
    have h2 : (shiftIn val a).toNat % 4 = a.toNat % 4 := by omega
    rw [base64EncodeLoop_first, base64EncodeLoop_one, h1, h2]
    rfl
  | case3 a b =>
    have ha := a.toNat_lt
    have hb := b.toNat_lt
    have hval := toNat_shiftIn val a
    have hval' := toNat_shiftIn (shiftIn val a) b
    have h1 : (shiftIn val a).toNat / 2 ^ 2 % 64 = a.toNat / 4 := by omega
    have h2 : (shiftIn (shiftIn val a) b).toNat / 2 ^ 4 % 64 = a.toNat % 4 * 16 + b.toNat / 16 := by omega
    have h3 : (shiftIn (shiftIn val a) b).toNat % 16 = b.toNat % 16 := by omega
    rw [base64EncodeLoop_first, base64EncodeLoop_second, base64EncodeLoop_two, h1, h2, h3]
    rfl
  | case4 a b c rest ih =>
    have ha := a.toNat_lt
    have hb := b.toNat_lt
    have hc := c.toNat_lt
    have hval := toNat_shiftIn val a
    have hval' := toNat_shiftIn (shiftIn val a) b
    have hval'' := toNat_shiftIn (shiftIn (shiftIn val a) b) c
    have h1 : (shiftIn val a).toNat / 2 ^ 2 % 64 = a.toNat / 4 := by omega
    have h2 : (shiftIn (shiftIn val a) b).toNat / 2 ^ 4 % 64 = a.toNat % 4 * 16 + b.toNat / 16 := by omega
    have h3 : (shiftIn (shiftIn (shiftIn val a) b) c).toNat / 2 ^ 6 % 64 = b.toNat % 16 * 4 + c.toNat / 64 := by omega
    have h4 : (shiftIn (shiftIn (shiftIn val a) b) c).toNat % 64 = c.toNat % 64 := by omega
    rw [base64EncodeLoop_first, base64EncodeLoop_second, base64EncodeLoop_third, h1, h2, h3, h4, ih]
    rfl

def padding (n : Nat) : List Char := List.replicate ((4 - n % 4) % 4) '='

theorem toList_base64Encode (bytes : Bytes) :
    (base64Encode bytes).toList = (sextets bytes).map base64Char ++ padding (sextets bytes).length := by
  simp only [base64Encode, base64EncodeLoop_eq, String.toList_ofList, length_map, padding]

theorem eq_of_mem_base64Encode {bytes c} (h : c ∈ (base64Encode bytes).toList) :
    c = '=' ∨ ∃ n < 64, c = base64Char n := by
  rw [toList_base64Encode] at h
  rcases mem_append.1 h with h | h
  · obtain ⟨n, hn, rfl⟩ := mem_map.1 h
    exact .inr ⟨n, lt_of_mem_sextets n hn, rfl⟩
  · exact .inl (eq_of_mem_replicate h)

/-! ### `atob` -/

def unpad (text : List Char) : List Char :=
  if text.length % 4 = 0 then text.take (text.length - min 2 (text.reverse.takeWhile (· = '=')).length) else text

def isAsciiWhitespace (c : Char) : Bool := [' ', '\t', '\n', '\x0c', '\r'].contains c

def atob? (text : List Char) : Option Bytes :=
  let text := unpad (text.filter fun c => !isAsciiWhitespace c)
  if text.length % 4 = 1 then none else (text.mapM (base64Chars.idxOf? ·)).map octets

theorem idxOf?_base64Char {n} (h : n < 64) : base64Chars.idxOf? (base64Char n) = some n := by
  have : ∀ n < 64, base64Chars.idxOf? (base64Char n) = some n := by decide
  exact this n h

theorem base64Char_plain {n} (h : n < 64) : isAsciiWhitespace (base64Char n) = false ∧ base64Char n ≠ '=' := by
  have : ∀ n < 64, isAsciiWhitespace (base64Char n) = false ∧ base64Char n ≠ '=' := by decide +kernel
  exact this n h

theorem mapM_idxOf? {ns : List Nat} (h : ∀ n ∈ ns, n < 64) :
    (ns.map base64Char).mapM (base64Chars.idxOf? ·) = some ns := by
  induction ns with
  | nil => rfl
  | cons n ns ih =>
    rw [map_cons, mapM_cons, idxOf?_base64Char (h n mem_cons_self),
      ih fun x hx => h x (mem_cons_of_mem n hx)]
    rfl

theorem unpad_append_padding {body} (hbody : '=' ∉ body) (hlen : body.length % 4 ≠ 1) :
    unpad (body ++ padding body.length) = body := by
  have hcnt : (body ++ padding body.length).reverse.takeWhile (· = '=') = padding body.length := by
    have hnil : body.reverse.takeWhile (· = '=') = [] := by
      refine takeWhile_eq_nil_iff.2 fun hlt heq => hbody ?_
      rw [← of_decide_eq_true heq]
      exact mem_reverse.1 (getElem_mem hlt)
    rw [reverse_append, padding, reverse_replicate, takeWhile_append_of_pos (by simp), hnil, append_nil]
  have hsize : (padding body.length).length = (4 - body.length % 4) % 4 := length_replicate
  rw [unpad, hcnt, if_pos (by rw [length_append]; omega), length_append]
  exact take_left' (by omega)

theorem atob?_base64Encode (bytes : Bytes) : atob? (base64Encode bytes).toList = some bytes := by
  have hchr : ∀ c ∈ (sextets bytes).map base64Char, isAsciiWhitespace c = false ∧ c ≠ '=' := by
    intro c hc
    obtain ⟨n, hn, rfl⟩ := mem_map.1 hc
    exact base64Char_plain (lt_of_mem_sextets n hn)
  have hfil : ((base64Encode bytes).toList.filter fun c => !isAsciiWhitespace c) = (base64Encode bytes).toList := by
    refine filter_eq_self.2 fun c hc => ?_
    rw [toList_base64Encode] at hc
    rcases mem_append.1 hc with hc | hc
    · simp [(hchr c hc).1]
    · rw [eq_of_mem_replicate hc]
      rfl
  have hpad : '=' ∉ (sextets bytes).map base64Char := fun h => (hchr _ h).2 rfl
  have hunp := unpad_append_padding hpad (by rw [length_map]; exact length_sextets bytes)
  rw [length_map] at hunp
  simp only [atob?, hfil]
  rw [toList_base64Encode, hunp, length_map, if_neg (length_sextets bytes), mapM_idxOf? lt_of_mem_sextets,
    map_some, octets_sextets]

end CloudeLoader.Engine
