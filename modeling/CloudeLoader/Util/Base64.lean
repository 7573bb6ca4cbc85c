import CloudeLoader.Engine.Base64

/-!
# The codecs of base64 (`encoding.h`, `utils.cc`, `crypto.cc`)

Two of the encoders work on groups of three bytes, one on a 24-bit number, and one on an accumulator.  The decoders keep
their bits in 32-bit integers that overflow.
-/

namespace CloudeLoader.Engine

open List Nat

/-! ### Encoders -/

def luaBase64Encode (bytes : Bytes) : List Char := base64EncodeGroups [] bytes

/-- The character of `(n >> k) & 0x3F`. -/
def cryptoChar (n : UInt32) (k : UInt32) : Char := base64Char ((n >>> k) &&& 0x3f).toNat

def cryptoBase64Encode : Bytes → List Char
  | [] => []
  | [a] => [cryptoChar (a.toUInt32 <<< 16) 18, cryptoChar (a.toUInt32 <<< 16) 12, '=', '=']
  | [a, b] =>
    let n := a.toUInt32 <<< 16 ||| b.toUInt32 <<< 8
    [cryptoChar n 18, cryptoChar n 12, cryptoChar n 6, '=']
  | a :: b :: c :: rest =>
    let n := a.toUInt32 <<< 16 ||| b.toUInt32 <<< 8 ||| c.toUInt32
    cryptoChar n 18 :: cryptoChar n 12 :: cryptoChar n 6 :: cryptoChar n 0 :: cryptoBase64Encode rest

/-- The standard text: groups of six bits, filled up with padding. -/
def standardBase64 (bytes : Bytes) : List Char := (sextets bytes).map base64Char ++ padding (sextets bytes).length

theorem padding_add_four (n : Nat) : padding (n + 4) = padding n := by
  rw [padding, padding, add_mod_right]

/-- The characters of three bytes. -/
def groupChars (a b c : UInt8) : List Char :=
  [base64Char (a.toNat / 4), base64Char (a.toNat % 4 * 16 + b.toNat / 16), base64Char (b.toNat % 16 * 4 + c.toNat / 64),
    base64Char (c.toNat % 64)]

theorem standardBase64_cons (a b c : UInt8) (rest : Bytes) :
    standardBase64 (a :: b :: c :: rest) = groupChars a b c ++ standardBase64 rest := by
  simp [standardBase64, sextets, padding_add_four, groupChars]

theorem byte_parts (a : UInt8) : ((a &&& 0xfc) >>> 2).toNat = a.toNat / 4 ∧ ((a &&& 0x03) <<< 4).toNat = a.toNat % 4 * 16 ∧
    ((a &&& 0xf0) >>> 4).toNat = a.toNat / 16 ∧ ((a &&& 0x0f) <<< 2).toNat = a.toNat % 16 * 4 ∧
    ((a &&& 0xc0) >>> 6).toNat = a.toNat / 64 ∧ (a &&& 0x3f).toNat = a.toNat % 64 := by
  have h : ∀ n < 256, ((UInt8.ofNat n &&& 0xfc) >>> 2).toNat = n / 4 ∧ ((UInt8.ofNat n &&& 0x03) <<< 4).toNat = n % 4 * 16 ∧
      ((UInt8.ofNat n &&& 0xf0) >>> 4).toNat = n / 16 ∧ ((UInt8.ofNat n &&& 0x0f) <<< 2).toNat = n % 16 * 4 ∧
      ((UInt8.ofNat n &&& 0xc0) >>> 6).toNat = n / 64 ∧ (UInt8.ofNat n &&& 0x3f).toNat = n % 64 := by
    decide +kernel
  simpa only [UInt8.ofNat_toNat] using h a.toNat a.toNat_lt

theorem map_charArray4 (a b c : UInt8) : (charArray4 a b c).map (base64Char ·.toNat) = groupChars a b c := by
  obtain ⟨ha, ha', -⟩ := byte_parts a
  obtain ⟨-, -, hb, hb', -⟩ := byte_parts b
  obtain ⟨-, -, -, -, hc, hc'⟩ := byte_parts c
  have hlt := b.toNat_lt
  have hlt' := c.toNat_lt
  have h1 : (a.toNat % 4 * 16 + b.toNat / 16) % 2 ^ 8 = a.toNat % 4 * 16 + b.toNat / 16 := by omega
  have h2 : (b.toNat % 16 * 4 + c.toNat / 64) % 2 ^ 8 = b.toNat % 16 * 4 + c.toNat / 64 := by omega
  simp only [charArray4, map_cons, map_nil, UInt8.toNat_add, ha, ha', hb, hb', hc, hc', h1, h2, groupChars]

theorem base64EncodeGroups_eq (bytes : Bytes) : base64EncodeGroups [] bytes = standardBase64 bytes := by
  fun_induction sextets bytes with
  | case1 => rfl
  | case2 a =>
    change ((charArray4 a 0 0).map (base64Char ·.toNat)).take 2 ++ ['=', '='] = _
    rw [map_charArray4]
    rfl
  | case3 a b =>
    change ((charArray4 a b 0).map (base64Char ·.toNat)).take 3 ++ ['='] = _
    rw [map_charArray4]
    rfl
  | case4 a b c rest ih =>
    change (charArray4 a b c).map (base64Char ·.toNat) ++ base64EncodeGroups [] rest = _
    rw [map_charArray4, ih, standardBase64_cons]

theorem toNat_bits (a b c : UInt8) :
    (a.toUInt32 <<< 16 ||| b.toUInt32 <<< 8 ||| c.toUInt32).toNat = a.toNat * 65536 + b.toNat * 256 + c.toNat := by
  have ha := a.toNat_lt
  have hb := b.toNat_lt
  have hc := c.toNat_lt
  have hab : a.toNat <<< 16 % 2 ^ 32 ||| b.toNat <<< 8 % 2 ^ 32 = (a.toNat * 256 + b.toNat) <<< 8 := by
    rw [shiftLeft_eq, mod_eq_of_lt (by omega), mod_eq_of_lt (by omega), ← shiftLeft_eq,
      ← shiftLeft_add_eq_or_of_lt (by omega), shiftLeft_eq, shiftLeft_eq]
    omega
  change a.toNat <<< 16 % 2 ^ 32 ||| b.toNat <<< 8 % 2 ^ 32 ||| c.toNat = _
  rw [hab, ← shiftLeft_add_eq_or_of_lt (by omega), shiftLeft_eq]
  omega

theorem cryptoChar_eq (n k : UInt32) (hk : k.toNat < 32) : cryptoChar n k = base64Char (n.toNat / 2 ^ k.toNat % 64) := by
  rw [cryptoChar, UInt32.toNat_and, UInt32.toNat_shiftRight, mod_eq_of_lt hk, shiftRight_eq_div_pow]
  exact congrArg base64Char (and_two_pow_sub_one_eq_mod _ 6)

/-- The four characters of a group, as `Crypto` takes them from the number. -/
theorem cryptoChars (a b c : UInt8) :
    let n := a.toUInt32 <<< 16 ||| b.toUInt32 <<< 8 ||| c.toUInt32
    [cryptoChar n 18, cryptoChar n 12, cryptoChar n 6, cryptoChar n 0] = groupChars a b c := by
  have ha := a.toNat_lt
  have hb := b.toNat_lt
  have hc := c.toNat_lt
  intro n
  rw [cryptoChar_eq n 18 (by decide), cryptoChar_eq n 12 (by decide), cryptoChar_eq n 6 (by decide),
    cryptoChar_eq n 0 (by decide), toNat_bits]
  have h1 : (a.toNat * 65536 + b.toNat * 256 + c.toNat) / 2 ^ 18 % 64 = a.toNat / 4 := by omega
  have h2 : (a.toNat * 65536 + b.toNat * 256 + c.toNat) / 2 ^ 12 % 64 = a.toNat % 4 * 16 + b.toNat / 16 := by omega
  have h3 : (a.toNat * 65536 + b.toNat * 256 + c.toNat) / 2 ^ 6 % 64 = b.toNat % 16 * 4 + c.toNat / 64 := by omega
  have h4 : (a.toNat * 65536 + b.toNat * 256 + c.toNat) / 2 ^ 0 % 64 = c.toNat % 64 := by omega
  rw [groupChars, ← h1, ← h2, ← h3, ← h4]
  rfl

theorem cryptoBase64Encode_eq (bytes : Bytes) : cryptoBase64Encode bytes = standardBase64 bytes := by
  fun_induction cryptoBase64Encode bytes with
  | case1 => rfl
  | case2 a =>
    have h := cryptoChars a 0 0
    simp only [show (0 : UInt8).toUInt32 = 0 from rfl, UInt32.zero_shiftLeft, UInt32.or_zero, groupChars,
      List.cons.injEq] at h
    rw [h.1, h.2.1]
    rfl
  | case3 a b n =>
    have h := cryptoChars a b 0
    simp only [show (0 : UInt8).toUInt32 = 0 from rfl, UInt32.or_zero, groupChars, List.cons.injEq] at h
    rw [h.1, h.2.1, h.2.2.1]
    rfl
  | case4 a b c rest n ih =>
    rw [standardBase64_cons, ← cryptoChars, ih]
    rfl

/-! ### Decoders -/

/-- The loop of `base64_decode` in `Crypto`; other characters than those of the table are skipped. -/
def cryptoBase64DecodeLoop (bits : BitVec 32) (bitCount : Nat) : List Char → Bytes
  | [] => []
  | c :: rest =>
    if c = '=' then [] else
    match base64Chars.idxOf? c with
    | none => cryptoBase64DecodeLoop bits bitCount rest
    | some v =>
      let bits := (bits <<< 6) ||| BitVec.ofNat 32 v
      if bitCount + 6 ≥ 8 then
        UInt8.ofNat (bits >>> (bitCount + 6 - 8)).toNat :: cryptoBase64DecodeLoop bits (bitCount + 6 - 8) rest
      else cryptoBase64DecodeLoop bits (bitCount + 6) rest

/-- What both loops do with the accumulator. -/
def pushSextet (val : BitVec 32) (n : Nat) : BitVec 32 := (val <<< 6) + BitVec.ofNat 32 n

theorem toNat_pushSextet (val : BitVec 32) (n : Nat) : (pushSextet val n).toNat = (val.toNat * 64 + n) % 2 ^ 32 := by
  rw [pushSextet, BitVec.toNat_add, BitVec.toNat_shiftLeft, BitVec.toNat_ofNat]
  omega

theorem or_eq_pushSextet (val : BitVec 32) {n} (h : n < 64) :
    (val <<< 6) ||| BitVec.ofNat 32 n = pushSextet val n := by
  refine (BitVec.add_eq_or_of_and_eq_zero _ _ ?_).symm
  ext i hi
  by_cases h6 : i < 6
  · simp [h6]
  · have hlt : n < 2 ^ i := lt_of_lt_of_le h (Nat.pow_le_pow_right (show 0 < 2 by decide) (show 6 ≤ i by omega))
    have hbit : (BitVec.ofNat 32 n)[i] = false := by
      rw [BitVec.getElem_eq_testBit_toNat, BitVec.toNat_ofNat, mod_eq_of_lt (by omega), testBit_lt_two_pow hlt]
    simp [hbit]

theorem ofNat_eq_of_mod {x y} (h : x % 256 = y % 256) : UInt8.ofNat x = UInt8.ofNat y := by
  rw [← UInt8.ofNat_mod_size, h, UInt8.ofNat_mod_size]

section Steps

variable (val : BitVec 32) {n : Nat} (hn : n < 64) (count : Nat) (rest : List Char)

include hn

theorem cryptoBase64DecodeLoop_cons : cryptoBase64DecodeLoop val count (base64Char n :: rest) =
    if count + 6 ≥ 8 then
      UInt8.ofNat ((pushSextet val n).toNat / 2 ^ (count + 6 - 8)) ::
        cryptoBase64DecodeLoop (pushSextet val n) (count + 6 - 8) rest
    else cryptoBase64DecodeLoop (pushSextet val n) (count + 6) rest := by
  rw [cryptoBase64DecodeLoop, if_neg (base64Char_plain hn).2, idxOf?_base64Char hn]
  simp only [or_eq_pushSextet val hn, BitVec.toNat_ushiftRight, shiftRight_eq_div_pow]

theorem base64DecodeLoop_cons (hcnt : count < 8) : base64DecodeLoop val (count - 8) (base64Char n :: rest) =
    if count + 6 ≥ 8 then
      UInt8.ofNat ((pushSextet val n).toNat / 2 ^ (count + 6 - 8)) ::
        base64DecodeLoop (pushSextet val n) ((count + 6 - 8 : Nat) - 8) rest
    else base64DecodeLoop (pushSextet val n) ((count + 6 : Nat) - 8) rest := by
  rw [base64DecodeLoop, idxOf?_base64Char hn]
  change (if (count - 8 + 6 : Int) ≥ 0 then UInt8.ofNat ((pushSextet val n).sshiftRight (count - 8 + 6 : Int).toNat).toNat ::
    base64DecodeLoop (pushSextet val n) (count - 8 + 6 - 8) rest
    else base64DecodeLoop (pushSextet val n) (count - 8 + 6) rest) = _
  by_cases h : count + 6 ≥ 8
  · have hbyte := sshiftRight_mod_two_pow (pushSextet val n) (show count + 6 - 8 + 8 ≤ 32 by omega)
    rw [if_pos h, if_pos (by omega), show (count - 8 + 6 : Int).toNat = count + 6 - 8 by omega,
      show (count - 8 + 6 - 8 : Int) = (count + 6 - 8 : Nat) - 8 by omega,
      ofNat_eq_of_mod hbyte]
  · rw [if_neg h, if_neg (by omega), show (count - 8 + 6 : Int) = (count + 6 : Nat) - 8 by omega]

end Steps

/-- On a text of the alphabet, with padding, both decoders do the same. -/
theorem base64DecodeLoop_eq {ns : List Nat} (hns : ∀ n ∈ ns, n < 64) (m : Nat) (val : BitVec 32) {count : Nat}
    (hcnt : count < 8) : base64DecodeLoop val (count - 8) (ns.map base64Char ++ padding m) =
      cryptoBase64DecodeLoop val count (ns.map base64Char ++ padding m) := by
  induction ns generalizing val count with
  | nil =>
    rw [map_nil, padding]
    cases (4 - m % 4) % 4 with
    | zero => rfl
    | succ k => rfl
  | cons n ns ih =>
    rw [forall_mem_cons] at hns
    rw [map_cons, cons_append, base64DecodeLoop_cons val hns.1 count _ hcnt,
      cryptoBase64DecodeLoop_cons val hns.1 count]
    split
    · rw [ih hns.2 _ (by omega)]
    · rw [ih hns.2 _ (by omega)]

theorem cryptoBase64DecodeLoop_eq {ns} (hns : ∀ n ∈ ns, n < 64) (m : Nat) (val : BitVec 32) :
    cryptoBase64DecodeLoop val 0 (ns.map base64Char ++ padding m) = octets ns := by
  have hend : ∀ val count, cryptoBase64DecodeLoop val count (padding m) = [] := by
    intro val count
    rw [padding]
    cases (4 - m % 4) % 4 with
    | zero => rfl
    | succ k => rfl
  fun_induction octets ns generalizing val with
  | case1 a b c d rest ih =>
    simp only [forall_mem_cons] at hns
    obtain ⟨ha, hb, hc, hd, hrest⟩ := hns
    have h1 := toNat_pushSextet val a
    have h2 := toNat_pushSextet (pushSextet val a) b
    have h3 := toNat_pushSextet (pushSextet (pushSextet val a) b) c
    have h4 := toNat_pushSextet (pushSextet (pushSextet (pushSextet val a) b) c) d
    simp only [map_cons, cons_append, cryptoBase64DecodeLoop_cons, ha, hb, hc, hd, ih hrest]
    simp only [reduceAdd, reduceSub, reduceLeDiff, ge_iff_le, if_true, if_false, List.cons.injEq, and_true]
    exact ⟨ofNat_eq_of_mod (by omega), ofNat_eq_of_mod (by omega), ofNat_eq_of_mod (by omega)⟩
  | case2 a b c =>
    simp only [forall_mem_cons] at hns
    obtain ⟨ha, hb, hc, -⟩ := hns
    have h1 := toNat_pushSextet val a
    have h2 := toNat_pushSextet (pushSextet val a) b
    have h3 := toNat_pushSextet (pushSextet (pushSextet val a) b) c
    simp only [map_cons, map_nil, cons_append, nil_append, cryptoBase64DecodeLoop_cons, ha, hb, hc, hend]
    simp only [reduceAdd, reduceSub, reduceLeDiff, ge_iff_le, if_true, if_false, List.cons.injEq, and_true]
    exact ⟨ofNat_eq_of_mod (by omega), ofNat_eq_of_mod (by omega)⟩
  | case3 a b =>
    simp only [forall_mem_cons] at hns
    obtain ⟨ha, hb, -⟩ := hns
    have h1 := toNat_pushSextet val a
    have h2 := toNat_pushSextet (pushSextet val a) b
    simp only [map_cons, map_nil, cons_append, nil_append, cryptoBase64DecodeLoop_cons, ha, hb, hend]
    simp only [reduceAdd, reduceSub, reduceLeDiff, ge_iff_le, if_true, if_false, List.cons.injEq, and_true]
    exact ofNat_eq_of_mod (by omega)
  | case4 ns h1 h2 h3 =>
    rcases ns with _ | ⟨a, _ | ⟨b, _ | ⟨c, _ | ⟨d, rest⟩⟩⟩⟩
    · exact hend val 0
    · simp only [map_cons, map_nil, cons_append, nil_append, hend,
        cryptoBase64DecodeLoop_cons val (hns a mem_cons_self)]
      rfl
    · exact absurd rfl (h3 a b)
    · exact absurd rfl (h2 a b c)
    · exact absurd rfl (h1 a b c d rest)

/-- The four encoders write the same standard text, and both decoders read it back. -/
theorem base64_agree (bytes : Bytes) :
    (base64EncodeVector bytes).toList = standardBase64 bytes ∧ (base64Encode bytes).toList = standardBase64 bytes ∧
      luaBase64Encode bytes = standardBase64 bytes ∧ cryptoBase64Encode bytes = standardBase64 bytes ∧
      base64Decode (String.ofList (standardBase64 bytes)) = bytes ∧
      cryptoBase64DecodeLoop 0 0 (standardBase64 bytes) = bytes := by
  have hcry : cryptoBase64DecodeLoop 0 0 (standardBase64 bytes) = bytes := by
    rw [standardBase64, cryptoBase64DecodeLoop_eq lt_of_mem_sextets, octets_sextets]
  have hdec : base64Decode (String.ofList (standardBase64 bytes)) = bytes := by
    rw [base64Decode, String.toList_ofList]
    exact (base64DecodeLoop_eq lt_of_mem_sextets _ 0 (show 0 < 8 by decide)).trans hcry
  refine ⟨?_, toList_base64Encode bytes, base64EncodeGroups_eq bytes, cryptoBase64Encode_eq bytes, hdec, hcry⟩
  rw [base64EncodeVector, String.toList_ofList, base64EncodeGroups_eq]

end CloudeLoader.Engine
