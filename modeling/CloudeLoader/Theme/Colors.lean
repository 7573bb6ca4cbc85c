import CloudeLoader.Engine.Encoding
import CloudeLoader.Lib.Decimal
import Mathlib.Data.List.Forall2

/-!
# Notations of colours (`css_parser.cc`)

A theme's colours are stored in the notation of its stylesheet and edited as hexadecimal digits:  `convert_from_hex`
writes the notation and `convert_to_hex` reads it.  Red, green and blue come back as they were.
-/

namespace CloudeLoader.Theme

open Engine Decimal List Option

inductive ColorType where
  | rawRGB | rgb | rawRGBA | rgba | hex | unknown
  deriving DecidableEq

def ColorType.hasAlpha (t : ColorType) : Bool := t = .rawRGBA || t = .rgba

/-- The exceptions of `std::stoi` and `substr`, an index outside of a vector, and a `double` that no `int` is. -/
inductive Fault where
  | invalidArgument | outOfRange | badPosition | badIndex | badCast
  deriving DecidableEq

/-! ### Reading and writing numbers -/

def isSpace (c : UInt8) : Bool := c == 32 || (9 ≤ c && c ≤ 13)

def digitsOf (base : Nat) : Bytes → List Nat
  | [] => []
  | c :: rest =>
    match (hexDigit? c).filter (· < base) with
    | none => []
    | some d => d :: digitsOf base rest

/-- `std::stoi`.  In base 16 it is given two bytes, which cannot hold a digit behind `0x`. -/
def stoi (base : Nat) (text : Bytes) : Except Fault Int :=
  let body := text.dropWhile isSpace
  let digits := digitsOf base (if body.head? = some 45 || body.head? = some 43 then body.tail else body)
  let value : Int := (if body.head? = some 45 then -1 else 1) * Nat.ofDigits base digits.reverse
  if digits = [] then .error .invalidArgument
  else if -0x80000000 ≤ value && value ≤ 0x7fffffff then .ok value
  else .error .outOfRange

def sign (n : Int) : Bytes := if n < 0 then [45] else []

def decimal (n : Int) : Bytes := sign n ++ numeral n.natAbs

def fixed2 (n : Int) : Bytes :=
  let hundredths := (200 * n.natAbs + 255) / 510
  sign n ++ numeral (hundredths / 100) ++ 46 :: numeral (hundredths / 10 % 10) ++ numeral (hundredths % 10)

def lowerHexDigit (n : Nat) : UInt8 := UInt8.ofNat (if n < 10 then 48 + n else 87 + n)

def hex2 (n : Int) : Bytes :=
  let digits := (Nat.digits 16 n.natAbs).reverse.map lowerHexDigit
  sign n ++ replicate ((if n < 0 then 1 else 2) - digits.length) 48 ++ digits

def pieces (delimiter : UInt8) : Bytes → List Bytes
  | [] => []
  | c :: rest =>
    if c = delimiter then [] :: pieces delimiter rest
    else
      match pieces delimiter rest with
      | [] => [[c]]
      | piece :: more => (c :: piece) :: more

/-! ### The conversions -/

def pair (hex : Bytes) (pos : Nat) : Except Fault Int :=
  if hex.length < pos then .error .badPosition else stoi 16 ((hex.drop pos).take 2)

def joined : List Bytes → Bytes
  | [] => []
  | part :: parts => part ++ parts.flatMap (44 :: ·)

def wrapped (t : ColorType) (values : Bytes) : Bytes :=
  match t with
  | .rgb => utf8 "rgb(" ++ values ++ utf8 ")"
  | .rgba => utf8 "rgba(" ++ values ++ utf8 ")"
  | _ => values

def convertFromHex (color : Bytes) (t : ColorType) : Except Fault (Option Bytes) :=
  if t = .unknown then .ok none
  else do
    let hex := if color.head? = some 35 then color.tail else color
    let r ← pair hex 0
    let g ← pair hex 2
    let b ← pair hex 4
    if t = .hex then pure (some (35 :: hex))
    else
      let alpha ← if !t.hasAlpha then pure [] else if hex.length = 8 then (pair hex 6).map ([·]) else pure [255]
      pure (some (wrapped t (joined ([decimal r, 32 :: decimal g, 32 :: decimal b] ++ alpha.map (32 :: fixed2 ·)))))

/-- `substr` from behind the first `(` to the first `)`; to the end, if that is missing or comes before. -/
def inner (color : Bytes) : Bytes :=
  let start := ((color.idxOf? 40).map (· + 1)).getD 0
  match color.idxOf? 41 with
  | some stop => if start ≤ stop then (color.drop start).take (stop - start) else color.drop start
  | none => color.drop start

def valueString (color : Bytes) (t : ColorType) : Bytes := if t = .rgb || t = .rgba then inner color else color

def alphaByte (value : Int) : Except Fault (List Int) :=
  if -0x80000000 ≤ value * 255 && value * 255 ≤ 0x7fffffff then .ok [value * 255] else .error .badCast

def valueAt (values : List Int) (i : Nat) : Except Fault Int := (values[i]?).elim (.error .badIndex) .ok

def convertToHex (color : Bytes) (t : ColorType) : Except Fault (Option Bytes) :=
  if t = .hex then .ok (some color)
  else do
    let values ← (pieces 44 (valueString color t)).mapM (stoi 10)
    if t = .unknown then pure none
    else
      let alpha ← if t.hasAlpha then (valueAt values 3).bind alphaByte else pure []
      let r ← valueAt values 0
      let g ← valueAt values 1
      let b ← valueAt values 2
      pure (some (35 :: ([r, g, b] ++ alpha).flatMap hex2))

/-! ### The way there and back -/

def channels : Bytes → Option (List Nat)
  | [] => some []
  | [_] => none
  | a :: b :: rest => do
    let high ← hexDigit? a
    let low ← hexDigit? b
    let more ← channels rest
    pure ((16 * high + low) :: more)

theorem hexDigit_lt {c d} (h : hexDigit? c = some d) : d < 16 ∧ isSpace c = false ∧ c ≠ 45 ∧ c ≠ 43 := by
  have hall : ∀ n : Fin 256, ∀ d ∈ hexDigit? (UInt8.ofNat n), d < 16 ∧ isSpace (UInt8.ofNat n) = false ∧
      UInt8.ofNat n ≠ 45 ∧ UInt8.ofNat n ≠ 43 := by decide +kernel
  have hc := hall ⟨c.toNat, c.toNat_lt⟩ d
  rw [UInt8.ofNat_toNat] at hc
  exact hc h

theorem stoi_two {a b x y} (ha : hexDigit? a = some x) (hb : hexDigit? b = some y) :
    stoi 16 [a, b] = .ok ((16 * x + y : Nat) : Int) := by
  obtain ⟨hx, hspc, hmin, hplus⟩ := hexDigit_lt ha
  obtain ⟨hy, -⟩ := hexDigit_lt hb
  have hdig : digitsOf 16 [a, b] = [x, y] := by simp [digitsOf, filter_some, ha, hb, hx, hy]
  have hval : Nat.ofDigits 16 [x, y].reverse = 16 * x + y := by
    simp [Nat.ofDigits]
    omega
  simp only [stoi, dropWhile_cons, hspc, Bool.false_eq_true, if_false, head?_cons, Option.some.injEq, hmin, hplus,
    decide_false, Bool.or_false, hdig, hval]
  rw [if_neg (by simp), if_pos (by simp; omega), one_mul]

theorem pair_cons_cons (a b : UInt8) (rest : Bytes) (pos : Nat) : pair (a :: b :: rest) (pos + 2) = pair rest pos := by
  simp [pair]

theorem channels_of_digits (n : Nat) {digits} (h : ∀ c ∈ digits, (hexDigit? c).isSome = true)
    (hlen : digits.length = 2 * n) :
    ∃ bs, channels digits = some bs ∧ bs.length = n ∧ ∀ i (b : Nat), bs[i]? = some b → b < 256 ∧ pair digits (2 * i) = .ok b := by
  induction n generalizing digits with
  | zero => exact ⟨[], by simp [length_eq_zero_iff.1 hlen, channels], rfl, by simp⟩
  | succ n ih =>
    match digits, hlen with
    | a :: b :: rest, hlen =>
      simp only [forall_mem_cons, isSome_iff_exists] at h
      obtain ⟨⟨x, hx⟩, ⟨y, hy⟩, hrest⟩ := h
      obtain ⟨bs, hbs, hbsL, hpair⟩ := ih (fun c hc => isSome_iff_exists.2 (hrest c hc)) (by simp at hlen; omega)
      refine ⟨(16 * x + y) :: bs, by simp [channels, hx, hy, hbs], by simp [hbsL], ?_⟩
      rintro (_ | i) b hb
      · have hlt := (hexDigit_lt hx).1
        have hlt' := (hexDigit_lt hy).1
        obtain rfl : 16 * x + y = b := by simpa using hb
        exact ⟨by omega, by simp [pair, stoi_two hx hy]⟩
      · rw [show 2 * (i + 1) = 2 * i + 2 by omega, pair_cons_cons]
        exact hpair i b (by simpa using hb)

theorem pieces_append {d p} (h : d ∉ p) (rest : Bytes) : pieces d (p ++ d :: rest) = p :: pieces d rest := by
  induction p with
  | nil => simp [pieces]
  | cons c p ih =>
    rw [mem_cons, not_or] at h
    rw [cons_append, pieces, if_neg (Ne.symm h.1), ih h.2]

theorem pieces_of_notMem {d p} (h : d ∉ p) (hp : p ≠ []) : pieces d p = [p] := by
  induction p with
  | nil => exact absurd rfl hp
  | cons c p ih =>
    rw [mem_cons, not_or] at h
    rw [pieces, if_neg (Ne.symm h.1)]
    by_cases hnil : p = []
    · rw [hnil, pieces]
    · rw [ih h.2 hnil]

theorem pieces_joined {parts p} (h : ∀ q ∈ p :: parts, 44 ∉ q ∧ q ≠ []) :
    pieces 44 (joined (p :: parts)) = p :: parts := by
  rw [forall_mem_cons] at h
  rw [joined]
  induction parts generalizing p with
  | nil => simpa using pieces_of_notMem h.1.1 h.1.2
  | cons q parts ih =>
    rw [flatMap_cons, cons_append, pieces_append h.1.1, ih (forall_mem_cons.1 h.2)]

theorem idxOf?_append_cons {c p} (h : c ∉ p) (rest : Bytes) : (p ++ c :: rest).idxOf? c = some p.length := by
  rw [idxOf?_eq_some_iff]
  refine ⟨by simp, by simp, ?_⟩
  intro j hj
  rw [getElem_append_left hj]
  intro heq
  exact h (heq ▸ getElem_mem hj)

theorem inner_wrapped {p body} (hopen : 40 ∉ p) (hcls : 41 ∉ p ++ 40 :: body) :
    inner (p ++ 40 :: body ++ [41]) = body := by
  rw [inner, idxOf?_append_cons hcls, append_assoc, cons_append, idxOf?_append_cons hopen]
  simp [show p.length + (body.length + 1) - (p.length + 1) = body.length by omega]

theorem valueString_wrapped {t body} (h : 41 ∉ body) : valueString (wrapped t body) t = body := by
  cases t with
  | rgb => exact inner_wrapped (p := [114, 103, 98]) (by decide) (by simpa using h)
  | rgba => exact inner_wrapped (p := [114, 103, 98, 97]) (by decide) (by simpa using h)
  | _ => rfl

structure Reads (part : Bytes) (value : Int) : Prop where
  stoi_eq : stoi 10 part = .ok value
  plain : ∀ c ∈ part, c ≠ 41 ∧ c ≠ 44

theorem Reads.blank {part value} (h : Reads part value) : Reads (32 :: part) value :=
  ⟨h.stoi_eq, forall_mem_cons.2 ⟨by decide, h.plain⟩⟩

theorem mapM_eq_ok {ε α β : Type} {f : α → Except ε β} {xs ys} :
    xs.mapM f = .ok ys ↔ List.Forall₂ (fun x y => f x = .ok y) xs ys := by
  induction xs generalizing ys with
  | nil => simp [pure, Except.pure, eq_comm]
  | cons x xs ih =>
    rw [mapM_cons, forall₂_cons_left_iff]
    simp only [← ih]
    cases f x <;> cases xs.mapM f <;> simp [bind, Except.bind, pure, Except.pure, eq_comm]

theorem values_wrapped {t parts values} (h : List.Forall₂ Reads parts values)
    (hne : parts ≠ []) : (pieces 44 (valueString (wrapped t (joined parts)) t)).mapM (stoi 10) = .ok values := by
  obtain ⟨part, parts, rfl⟩ := exists_cons_of_ne_nil hne
  have hpln : ∀ p ∈ part :: parts, (∀ c ∈ p, c ≠ 41 ∧ c ≠ 44) ∧ p ≠ [] := by
    refine ((forall₂_and_left _ _).1 (h.imp fun p v hp => ⟨⟨hp.plain, ?_⟩, hp⟩)).1
    rintro rfl
    cases hp.stoi_eq
  have hcls : 41 ∉ joined (part :: parts) := by
    simp only [joined, mem_append, mem_flatMap, mem_cons]
    rintro (hmem | ⟨p, hp, hmem | hmem⟩)
    · exact ((hpln _ mem_cons_self).1 _ hmem).1 rfl
    · cases hmem
    · exact ((hpln p (mem_cons_of_mem _ hp)).1 _ hmem).1 rfl
  rw [valueString_wrapped hcls, pieces_joined fun p hp => ⟨fun hmem => ((hpln p hp).1 44 hmem).2 rfl, (hpln p hp).2⟩,
    mapM_eq_ok]
  exact h.imp fun _ _ hp => hp.stoi_eq

def wholeAlpha (a : Nat) : Nat := if 254 ≤ a then 1 else 0

theorem byte_facts : ∀ n : Fin 256, stoi 10 (decimal n) = .ok (n : Int) ∧
    stoi 10 (fixed2 n) = .ok (wholeAlpha n : Int) ∧ ((decimal n ++ fixed2 n).all fun c => c ≠ 41 ∧ c ≠ 44) ∧
    (hex2 n).length = 2 ∧ channels (hex2 n) = some [n.val] := by
  decide +kernel

section Bytes

variable {n : Nat} {t : ColorType}

theorem reads_decimal (h : n < 256) : Reads (decimal n) n := by
  obtain ⟨hval, -, hpln, -⟩ := byte_facts ⟨n, h⟩
  simp only [all_append, Bool.and_eq_true, List.all_eq_true, decide_eq_true_eq] at hpln
  exact ⟨hval, hpln.1⟩

theorem reads_fixed2 (h : n < 256) : Reads (fixed2 n) (wholeAlpha n) := by
  obtain ⟨-, hval, hpln, -⟩ := byte_facts ⟨n, h⟩
  simp only [all_append, Bool.and_eq_true, List.all_eq_true, decide_eq_true_eq] at hpln
  exact ⟨hval, hpln.2⟩

theorem channels_flatMap_hex2 {bs} (h : ∀ b ∈ bs, b < 256) :
    channels ((bs.map fun b : Nat => (b : Int)).flatMap hex2) = some bs := by
  induction bs with
  | nil => rfl
  | cons b bs ih =>
    rw [forall_mem_cons] at h
    obtain ⟨-, -, -, hlen, hchn⟩ := byte_facts ⟨b, h.1⟩
    obtain ⟨x, y, hxy⟩ := length_eq_two.1 hlen
    rw [hxy] at hchn
    rw [map_cons, flatMap_cons, hxy]
    simp only [channels, cons_append, nil_append, ih h.2, bind_eq_bind] at hchn ⊢
    cases hx : hexDigit? x <;> cases hy : hexDigit? y <;> simp_all

theorem convertToHex_of_values {color r g b} (as : List Nat) (ht : t ≠ .hex ∧ t ≠ .unknown)
    (h : (pieces 44 (valueString color t)).mapM (stoi 10) = .ok (([r, g, b] ++ as).map fun n : Nat => (n : Int)))
    (has : as.length = if t.hasAlpha then 1 else 0) (ha : ∀ a ∈ as, a ≤ 1) :
    convertToHex color t = .ok (some (35 :: ((([r, g, b] ++ as.map (· * 255)).map fun n : Nat => (n : Int)).flatMap hex2))) := by
  rw [convertToHex, if_neg ht.1, h]
  cases halp : t.hasAlpha with
  | false =>
    rw [halp, if_neg (by decide), length_eq_zero_iff] at has
    subst has
    simp [ht.2, valueAt, bind, Except.bind, pure, Except.pure]
  | true =>
    rw [halp, if_pos rfl, length_eq_one_iff] at has
    obtain ⟨a, rfl⟩ := has
    have hcast : (-2147483648 : Int) ≤ a * 255 ∧ (a : Int) * 255 ≤ 2147483647 := by
      have := ha a mem_cons_self
      omega
    simp [ht.2, valueAt, alphaByte, hcast, bind, Except.bind, pure, Except.pure]

end Bytes

/-- A colour that may be set for an entry of the type. -/
structure Color (t : ColorType) where
  digits : Bytes
  isHex : ∀ c ∈ digits, (hexDigit? c).isSome = true
  length_eq : digits.length = if t.hasAlpha then 8 else 6

namespace Color

variable {t : ColorType}

def alpha (color : Color t) : List Nat := ((channels color.digits).getD []).drop 3

/-- The colour comes back with the same red, green and blue bytes, and an alpha byte that differs by at most 2. -/
def RoundTrips (color : Color t) : Prop :=
  ∃ text back bs bs', convertFromHex (35 :: color.digits) t = .ok (some text) ∧ convertToHex text t = .ok (some (35 :: back)) ∧
    channels color.digits = some bs ∧ channels back = some bs' ∧ bs'.take 3 = bs.take 3 ∧
    List.Forall₂ (fun a b => a ≤ b + 2 ∧ b ≤ a + 2) (bs.drop 3) (bs'.drop 3)

theorem roundTrips_iff_of_eq {color : Color t} {text back : Bytes} {bs bs' : List Nat}
    (hfrom : convertFromHex (35 :: color.digits) t = .ok (some text)) (hto : convertToHex text t = .ok (some (35 :: back)))
    (hbs : channels color.digits = some bs) (hback : channels back = some bs') :
    color.RoundTrips ↔ bs'.take 3 = bs.take 3 ∧ List.Forall₂ (fun a b => a ≤ b + 2 ∧ b ≤ a + 2) (bs.drop 3) (bs'.drop 3) := by
  constructor
  · rintro ⟨_, _, _, _, hfrom', hto', hbs', hback', h⟩
    cases hfrom.symm.trans hfrom'
    cases hto.symm.trans hto'
    cases hbs.symm.trans hbs'
    cases hback.symm.trans hback'
    exact h
  · intro h
    exact ⟨text, back, bs, bs', hfrom, hto, hbs, hback, h⟩

theorem there_and_back (color : Color t) (ht : t ≠ .hex ∧ t ≠ .unknown) :
    ∃ text back r g b as, convertFromHex (35 :: color.digits) t = .ok (some text) ∧
      convertToHex text t = .ok (some (35 :: back)) ∧ (∀ a ∈ as, a < 256) ∧ channels color.digits = some (r :: g :: b :: as) ∧
      channels back = some (r :: g :: b :: as.map (wholeAlpha · * 255)) := by
  have hlen : color.digits.length = 2 * (3 + if t.hasAlpha then 1 else 0) := by
    rw [color.length_eq]
    split <;> rfl
  obtain ⟨bs, hbs, hbsL, hpair⟩ := channels_of_digits _ color.isHex hlen
  rcases bs with _ | ⟨r, _ | ⟨g, _ | ⟨b, as⟩⟩⟩
  iterate 3 (simp at hbsL; omega)
  have has : as.length = if t.hasAlpha then 1 else 0 := by
    simp only [List.length_cons] at hbsL
    omega
  obtain ⟨hr, hr'⟩ := hpair 0 r rfl
  obtain ⟨hg, hg'⟩ := hpair 1 g rfl
  obtain ⟨hb, hb'⟩ := hpair 2 b rfl
  have hlt : ∀ a ∈ as, a < 256 := by
    intro a ha
    obtain ⟨i, hi⟩ := List.mem_iff_getElem?.1 ha
    exact (hpair (i + 3) a (by simpa using hi)).1
  have hwhl : ∀ a ∈ as.map wholeAlpha, a ≤ 1 := by
    simp only [List.mem_map, forall_exists_index, and_imp, wholeAlpha]
    rintro _ a - rfl
    split <;> decide
  have halp : List.Forall₂ Reads (as.map fun a : Nat => 32 :: fixed2 a) (as.map fun a => (wholeAlpha a : Int)) :=
    List.forall₂_map_left_iff.2 (List.forall₂_map_right_iff.2 (List.forall₂_same.2 fun a ha => (reads_fixed2 (hlt a ha)).blank))
  have hval := values_wrapped (t := t)
    (.cons (reads_decimal hr) (.cons (reads_decimal hg).blank (.cons (reads_decimal hb).blank halp))) (by simp)
  have hback := convertToHex_of_values (as.map wholeAlpha) ht (by simpa [Function.comp_def] using hval)
    (by rw [List.length_map, has]) hwhl
  refine ⟨_, _, r, g, b, as, ?_, hback, hlt, hbs, ?_⟩
  · rw [convertFromHex]
    cases halp : t.hasAlpha with
    | false => simp_all [bind, Except.bind, pure, Except.pure]
    | true =>
      rw [halp, if_pos rfl, List.length_eq_one_iff] at has
      obtain ⟨a, rfl⟩ := has
      have ha := (hpair 3 a rfl).2
      simp_all [bind, Except.bind, pure, Except.pure, Except.map]
  · rw [channels_flatMap_hex2, List.map_map]
    · rfl
    · simp only [List.forall_mem_append, List.forall_mem_cons, List.forall_mem_map, List.not_mem_nil, hr, hg, hb, wholeAlpha]
      refine ⟨by simp, fun a _ => ?_⟩
      split <;> decide

/-- A colour comes back unless it has an alpha byte from 3 to 253: of the fraction only the whole part is read. -/
theorem roundTrips_iff (color : Color t) (ht : t ∈ [ColorType.rgb, .rawRGB, .rgba, .rawRGBA]) :
    color.RoundTrips ↔ ∀ a ∈ color.alpha, a ≤ 2 ∨ 254 ≤ a := by
  obtain ⟨text, back, r, g, b, as, hfrom, hto, hlt, hbs, hback⟩ := color.there_and_back (by constructor <;> rintro rfl <;> simp at ht)
  have hnear : ∀ a ∈ as, (a ≤ wholeAlpha a * 255 + 2 ∧ wholeAlpha a * 255 ≤ a + 2 ↔ a ≤ 2 ∨ 254 ≤ a) := by
    intro a ha
    have := hlt a ha
    unfold wholeAlpha
    split <;> omega
  rw [roundTrips_iff_of_eq hfrom hto hbs hback, alpha, hbs]
  simp only [take_succ_cons, take_zero, drop_succ_cons, drop_zero, true_and, forall₂_map_right_iff,
    forall₂_same, getD_some]
  exact forall₂_congr hnear

theorem roundTrips_dodgerBlue : (⟨utf8 "1e90ffff", all_eq_true.1 rfl, rfl⟩ : Color .rgba).RoundTrips :=
  (roundTrips_iff _ (by decide)).2 (by decide)

def halfBlack : Color .rgba := ⟨utf8 "00000080", all_eq_true.1 rfl, rfl⟩

theorem halfBlack_not_roundTrips : ¬halfBlack.RoundTrips := by
  rw [@roundTrips_iff_of_eq _ halfBlack (utf8 "rgba(0, 0, 0, 0.50)") (utf8 "00000000") [0, 0, 0, 128] [0, 0, 0, 0]
    (by decide +kernel) (by decide +kernel) (by decide +kernel) (by decide +kernel)]
  simp

end Color

end CloudeLoader.Theme
