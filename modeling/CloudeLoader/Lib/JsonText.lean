import CloudeLoader.Lib.Decimal
import CloudeLoader.Lib.JsonValue

/-!
# JSON texts

A reader for JSON texts that goes through the bytes once, with a stack of the arrays and objects that are open.
-/

/-- The floating-point numbers; `nearest` gives none if a number is too large. -/
structure Doubles where
  nearest : ℚ → Option ℚ
  exact : ∀ (m : ℤ) (k : ℕ), m.natAbs ≤ 2 ^ 53 → k ≤ 970 → nearest ((m : ℚ) * 2 ^ k) = some ((m : ℚ) * 2 ^ k)

namespace JsonText

open Option

open Decimal (digit)

def isDigit (c : UInt8) : Bool := 48 ≤ c && c ≤ 57

/-! ### Numbers -/

inductive Phase where
  | minus | zero | int | point | frac | e | sign | exp
  deriving DecidableEq

structure Number where
  phase : Phase
  negative : Bool
  digits : Nat
  scale : Nat
  expNegative : Bool
  exp : Nat
  deriving DecidableEq

namespace Number

def exponent (n : Number) (c : UInt8) : Option Number := if c = 101 || c = 69 then some { n with phase := .e } else none

def more (n : Number) (c : UInt8) : Option Number := if c = 46 then some { n with phase := .point } else n.exponent c

def addInt (n : Number) (c : UInt8) : Number := { n with phase := .int, digits := 10 * n.digits + digit c }

def addFrac (n : Number) (c : UInt8) : Number :=
  { n with phase := .frac, digits := 10 * n.digits + digit c, scale := n.scale + 1 }

def addExp (n : Number) (c : UInt8) : Number := { n with phase := .exp, exp := 10 * n.exp + digit c }

def next (n : Number) (c : UInt8) : Option Number :=
  match n.phase with
  | .minus => if c = 48 then some { n with phase := .zero } else if isDigit c then some (n.addInt c) else none
  | .zero => n.more c
  | .int => if isDigit c then some (n.addInt c) else n.more c
  | .point => if isDigit c then some (n.addFrac c) else none
  | .frac => if isDigit c then some (n.addFrac c) else n.exponent c
  | .e =>
    if isDigit c then some (n.addExp c)
    else if c = 43 then some { n with phase := .sign }
    else if c = 45 then some { n with phase := .sign, expNegative := true }
    else none
  | .sign => if isDigit c then some (n.addExp c) else none
  | .exp => if isDigit c then some (n.addExp c) else none

def value (n : Number) : ℚ :=
  (if n.negative then -1 else 1) * n.digits * (if n.expNegative then 1 / 10 ^ n.exp else 10 ^ n.exp) / 10 ^ n.scale

def finish (d : Doubles) (n : Number) : Option JsonValue :=
  match n.phase with
  | .zero => some (.num n.value)
  | .int =>
    if n.digits < (if n.negative then 2 ^ 63 + 1 else 2 ^ 64) then some (.num n.value)
    else (d.nearest n.value).map .num
  | .frac => (d.nearest n.value).map .num
  | .exp => (d.nearest n.value).map .num
  | _ => none

def start (negative : Bool) : Number := ⟨.minus, negative, 0, 0, false, 0⟩

end Number

/-! ### Strings -/

/-- Where in a string the reader is: a `\u` escape has so many digits, and it may be the second half of a pair. -/
inductive TextPhase where
  | plain
  | escape
  | hex (high : Option Nat) (count code : Nat)
  | lowEscape (high : Nat)
  | lowHex (high : Nat)

structure Text where
  phase : TextPhase
  bytes : List UInt8

def encode (code : Nat) : List UInt8 :=
  if code < 0x80 then [UInt8.ofNat code]
  else if code < 0x800 then [UInt8.ofNat (0xC0 + code / 64), UInt8.ofNat (0x80 + code % 64)]
  else if code < 0x10000 then
    [UInt8.ofNat (0xE0 + code / 4096), UInt8.ofNat (0x80 + code / 64 % 64), UInt8.ofNat (0x80 + code % 64)]
  else
    [UInt8.ofNat (0xF0 + code / 262144), UInt8.ofNat (0x80 + code / 4096 % 64), UInt8.ofNat (0x80 + code / 64 % 64),
      UInt8.ofNat (0x80 + code % 64)]

def hexValue? (c : UInt8) : Option Nat :=
  if 48 ≤ c && c ≤ 57 then some (c.toNat - 48)
  else if 65 ≤ c && c ≤ 70 then some (c.toNat - 55)
  else if 97 ≤ c && c ≤ 102 then some (c.toNat - 87)
  else none

def escapes : List (UInt8 × UInt8) :=
  [(34, 34), (92, 92), (47, 47), (98, 8), (102, 12), (110, 10), (114, 13), (116, 9)]

namespace Text

def unit (t : Text) (high : Option Nat) (code : Nat) : Option Text :=
  match high with
  | none =>
    if 0xD800 ≤ code && code ≤ 0xDBFF then some { t with phase := .lowEscape code }
    else if 0xDC00 ≤ code && code ≤ 0xDFFF then none
    else some ⟨.plain, t.bytes ++ encode code⟩
  | some high =>
    if 0xDC00 ≤ code && code ≤ 0xDFFF then
      some ⟨.plain, t.bytes ++ encode (0x10000 + (high - 0xD800) * 1024 + (code - 0xDC00))⟩
    else none

def next (t : Text) (c : UInt8) : Option Text :=
  match t.phase with
  | .plain => if c = 92 then some { t with phase := .escape } else if c < 32 then none else some { t with bytes := t.bytes ++ [c] }
  | .escape =>
    if c = 117 then some { t with phase := .hex none 0 0 }
    else (escapes.lookup c).map fun b => ⟨.plain, t.bytes ++ [b]⟩
  | .hex high count code =>
    match hexValue? c with
    | none => none
    | some d => if count = 3 then t.unit high (16 * code + d) else some { t with phase := .hex high (count + 1) (16 * code + d) }
  | .lowEscape high => if c = 92 then some { t with phase := .lowHex high } else none
  | .lowHex high => if c = 117 then some { t with phase := .hex (some high) 0 0 } else none

end Text

/-! ### The machine -/

/-- An array or object that is open; an object with the name of the member whose value comes next. -/
inductive Context where
  | array (items : List JsonValue)
  | object (fields : List (List UInt8 × JsonValue)) (name : List UInt8)

inductive Mode where
  | value
  | element
  | name
  | member
  | colon (name : List UInt8)
  | comma
  | word (rest : List UInt8) (v : JsonValue)
  | number (n : Number)
  | text (t : Text) (isName : Bool)
  | done (v : JsonValue)
  | ended (v : JsonValue)

structure Machine where
  contexts : List Context
  mode : Mode

def isBlank (c : UInt8) : Bool := c == 32 || c == 9 || c == 10 || c == 13

def settle (contexts : List Context) (v : JsonValue) : Machine :=
  match contexts with
  | [] => ⟨[], .done v⟩
  | .array items :: rest => ⟨.array (items ++ [v]) :: rest, .comma⟩
  | .object fields name :: rest => ⟨.object (JsonValue.insertField name v fields) name :: rest, .comma⟩

def begin (contexts : List Context) (c : UInt8) : Option Machine :=
  if c = 91 then some ⟨.array [] :: contexts, .element⟩
  else if c = 123 then some ⟨.object [] [] :: contexts, .member⟩
  else if c = 34 then some ⟨contexts, .text ⟨.plain, []⟩ false⟩
  else if c = 116 then some ⟨contexts, .word [114, 117, 101] (.bool true)⟩
  else if c = 102 then some ⟨contexts, .word [97, 108, 115, 101] (.bool false)⟩
  else if c = 110 then some ⟨contexts, .word [117, 108, 108] .null⟩
  else if c = 45 then some ⟨contexts, .number (.start true)⟩
  else ((Number.start false).next c).map fun n => ⟨contexts, .number n⟩

def close (contexts : List Context) (c : UInt8) : Option Machine :=
  match contexts with
  | .array items :: rest => if c = 93 then some (settle rest (.arr items)) else none
  | .object fields _ :: rest => if c = 125 then some (settle rest (.obj fields)) else none
  | [] => none

def after (m : Machine) (c : UInt8) : Option Machine :=
  match m.mode with
  | .done v => if isBlank c then some m else if c = 0 then some ⟨m.contexts, .ended v⟩ else none
  | _ =>
    if isBlank c then some m
    else if c = 44 then
      match m.contexts with
      | .array _ :: _ => some ⟨m.contexts, .value⟩
      | .object _ _ :: _ => some ⟨m.contexts, .name⟩
      | [] => none
    else close m.contexts c

def closeText (contexts : List Context) (bytes : List UInt8) (isName : Bool) : Option Machine :=
  if JsonValue.isText bytes then
    if isName then some ⟨contexts, .colon bytes⟩ else some (settle contexts (.str bytes))
  else none

def step (d : Doubles) (m : Machine) (c : UInt8) : Option Machine :=
  match m.mode with
  | .value => if isBlank c then some m else begin m.contexts c
  | .element => if isBlank c then some m else if c = 93 then close m.contexts c else begin m.contexts c
  | .name => if isBlank c then some m else if c = 34 then some ⟨m.contexts, .text ⟨.plain, []⟩ true⟩ else none
  | .member =>
    if isBlank c then some m
    else if c = 34 then some ⟨m.contexts, .text ⟨.plain, []⟩ true⟩
    else close m.contexts c
  | .colon name =>
    if isBlank c then some m
    else if c = 58 then
      match m.contexts with
      | .object fields _ :: rest => some ⟨.object fields name :: rest, .value⟩
      | _ => none
    else none
  | .comma => after m c
  | .word rest v =>
    match rest with
    | [] => none
    | [x] => if c = x then some (settle m.contexts v) else none
    | x :: y :: rest => if c = x then some ⟨m.contexts, .word (y :: rest) v⟩ else none
  | .number n =>
    match n.next c with
    | some n => some ⟨m.contexts, .number n⟩
    | none => (n.finish d).bind fun v => after (settle m.contexts v) c
  | .text t isName =>
    match t.phase with
    | .plain => if c = 34 then closeText m.contexts t.bytes isName else (t.next c).map fun t => ⟨m.contexts, .text t isName⟩
    | _ => (t.next c).map fun t => ⟨m.contexts, .text t isName⟩
  | .done _ => after m c
  | .ended _ => some m

def result (d : Doubles) (m : Machine) : Option JsonValue :=
  match m.contexts, m.mode with
  | [], .done v => some v
  | [], .ended v => some v
  | [], .number n => n.finish d
  | _, _ => none

def run (d : Doubles) (bytes : List UInt8) : Option JsonValue := (bytes.foldlM (step d) ⟨[], .value⟩).bind (result d)

def parse (d : Doubles) : List UInt8 → Option JsonValue
  | 0xEF :: 0xBB :: 0xBF :: rest => run d rest
  | 0xEF :: _ => none
  | bytes => run d bytes

/-! ### Strings are shorter than their texts -/

def strLength : JsonValue → Nat
  | .str bytes => bytes.length + 2
  | _ => 0

def TextPhase.size : TextPhase → Nat
  | plain => 0
  | escape => 1
  | hex none count _ => 2 + count
  | lowEscape _ => 6
  | lowHex _ => 7
  | hex (some _) count _ => 8 + count

def Text.size (t : Text) : Nat := t.bytes.length + t.phase.size

/-- After `k` bytes, no string is longer than what was read of it. -/
def Short (k : Nat) (m : Machine) : Prop :=
  match m.mode with
  | .text t _ => t.size + 1 ≤ k
  | .word _ v => strLength v ≤ k
  | .done v => strLength v ≤ k
  | .ended v => strLength v ≤ k
  | _ => True

variable {d : Doubles} {k : Nat} {m m' : Machine} {c : UInt8} {v : JsonValue} {contexts : List Context}

theorem Short.succ (h : Short k m) : Short (k + 1) m := by
  unfold Short at h ⊢
  split <;> simp_all <;> omega

theorem short_settle (h : strLength v ≤ k) : Short k (settle contexts v) := by
  rcases contexts with _ | ⟨_ | _, _⟩
  · exact h
  · trivial
  · trivial

theorem length_encode_le (code : Nat) : (encode code).length ≤ 4 := by
  unfold encode
  split_ifs <;> simp

theorem Text.size_unit {t t' : Text} {high : Option Nat} {code : Nat} (h : t.unit high code = some t') :
    t'.size ≤ t.bytes.length + 6 := by
  have hlen := length_encode_le code
  cases high with
  | none =>
    simp only [Text.unit] at h
    split_ifs at h
    all_goals cases h
    · exact Nat.le_refl _
    · simp only [Text.size, TextPhase.size, List.length_append]
      omega
  | some high =>
    have hlen' := length_encode_le (0x10000 + (high - 0xD800) * 1024 + (code - 0xDC00))
    simp only [Text.unit] at h
    split_ifs at h
    cases h
    simp only [Text.size, TextPhase.size, List.length_append]
    omega

theorem Text.size_next {t t' : Text} (h : t.next c = some t') : t'.size ≤ t.size + 1 := by
  obtain ⟨phase, bytes⟩ := t
  cases phase with
  | plain =>
    simp only [Text.next] at h
    split_ifs at h <;> cases h <;> simp [Text.size, TextPhase.size]
  | escape =>
    simp only [Text.next] at h
    split_ifs at h
    · cases h
      simp [Text.size, TextPhase.size]
    · obtain ⟨b, -, rfl⟩ := map_eq_some_iff.1 h
      simp [Text.size, TextPhase.size]
  | hex high count code =>
    simp only [Text.next] at h
    cases hd : hexValue? c with
    | none => simp [hd] at h
    | some x =>
      simp only [hd] at h
      split_ifs at h with hcnt
      · have hunit := Text.size_unit h
        cases high <;> simp [Text.size, TextPhase.size] at hunit ⊢ <;> omega
      · cases h
        cases high <;> simp [Text.size, TextPhase.size] <;> omega
  | lowEscape high =>
    simp only [Text.next] at h
    split_ifs at h
    cases h
    simp [Text.size, TextPhase.size]
  | lowHex high =>
    simp only [Text.next] at h
    split_ifs at h
    cases h
    simp [Text.size, TextPhase.size]

theorem short_close (h : close contexts c = some m) : Short k m := by
  rcases contexts with _ | ⟨_ | _, rest⟩
  · cases h
  · simp only [close] at h
    split_ifs at h
    cases h
    exact short_settle (Nat.zero_le k)
  · simp only [close] at h
    split_ifs at h
    cases h
    exact short_settle (Nat.zero_le k)

theorem short_begin (h : begin contexts c = some m) : Short (k + 1) m := by
  simp only [begin] at h
  split_ifs at h
  all_goals first
    | (cases h; simp [Short, strLength, Text.size, TextPhase.size])
    | (obtain ⟨n, -, rfl⟩ := map_eq_some_iff.1 h; trivial)

theorem short_after (hm : Short k m) (h : after m c = some m') : Short (k + 1) m' := by
  obtain ⟨contexts, mode⟩ := m
  cases mode with
  | done v =>
    simp only [after] at h
    split_ifs at h
    · cases h
      exact hm.succ
    · cases h
      exact hm.succ
  | _ =>
    simp only [after] at h
    split_ifs at h
    · cases h
      exact hm.succ
    · rcases contexts with _ | ⟨_ | _, rest⟩ <;> cases h <;> trivial
    · exact short_close h

theorem strLength_finish {n : Number} (h : n.finish d = some v) : strLength v = 0 := by
  have hmap : ∀ q, (d.nearest q).map JsonValue.num = some v → strLength v = 0 := by
    intro q hq
    obtain ⟨x, -, rfl⟩ := map_eq_some_iff.1 hq
    rfl
  unfold Number.finish at h
  split at h
  · cases h
    rfl
  · split_ifs at h
    all_goals first
      | (cases h; rfl)
      | exact hmap _ h
  · exact hmap _ h
  · exact hmap _ h
  · cases h

theorem short_step (hm : Short k m) (h : step d m c = some m') : Short (k + 1) m' := by
  obtain ⟨contexts, mode⟩ := m
  cases mode with
  | value =>
    simp only [step] at h
    split_ifs at h
    · cases h
      trivial
    · exact short_begin h
  | element =>
    simp only [step] at h
    split_ifs at h
    · cases h
      trivial
    · exact short_close h
    · exact short_begin h
  | name =>
    simp only [step] at h
    split_ifs at h <;> cases h <;> simp [Short, Text.size, TextPhase.size]
  | member =>
    simp only [step] at h
    split_ifs at h
    · cases h
      trivial
    · cases h
      simp [Short, Text.size, TextPhase.size]
    · exact short_close h
  | colon name =>
    simp only [step] at h
    split_ifs at h
    · cases h
      trivial
    · rcases contexts with _ | ⟨_ | _, rest⟩ <;> cases h
      trivial
  | comma => exact short_after hm h
  | word rest v =>
    simp only [step] at h
    rcases rest with _ | ⟨x, _ | ⟨y, rest⟩⟩
    · cases h
    · dsimp only at h
      split_ifs at h
      cases h
      exact short_settle (Nat.le_succ_of_le hm)
    · dsimp only at h
      split_ifs at h
      cases h
      exact Nat.le_succ_of_le hm
  | number n =>
    simp only [step] at h
    cases hn : n.next c with
    | some n' =>
      rw [hn] at h
      cases h
      trivial
    | none =>
      rw [hn] at h
      obtain ⟨v, hv, h⟩ := bind_eq_some_iff.1 h
      exact short_after (short_settle (by rw [strLength_finish hv]; exact Nat.zero_le k)) h
  | text t isName =>
    have hnext : ∀ {m'}, (t.next c).map (fun t => (⟨contexts, .text t isName⟩ : Machine)) = some m' → Short (k + 1) m' := by
      intro m' h
      obtain ⟨t', ht', rfl⟩ := map_eq_some_iff.1 h
      have hsize := Text.size_next ht'
      have hk : t.size + 1 ≤ k := hm
      exact Nat.succ_le_succ (by omega)
    simp only [step] at h
    split at h
    · next hpln =>
      split_ifs at h
      · have hk : t.size + 1 ≤ k := hm
        rw [Text.size] at hk
        simp only [closeText] at h
        split_ifs at h
        · cases h
          trivial
        · cases h
          exact short_settle (by simp only [strLength]; omega)
      · exact hnext h
    · exact hnext h
  | done v => exact short_after hm h
  | ended v =>
    cases h
    exact hm.succ

theorem short_foldlM {bytes : List UInt8} (hm : Short k m) (h : bytes.foldlM (step d) m = some m') :
    Short (k + bytes.length) m' := by
  induction bytes generalizing k m with
  | nil =>
    cases h
    exact hm
  | cons c bytes ih =>
    obtain ⟨m₁, h₁, h⟩ := bind_eq_some_iff.1 h
    have := ih (short_step hm h₁) h
    rwa [List.length_cons, Nat.add_comm bytes.length 1, ← Nat.add_assoc]

theorem length_lt_of_run {bytes text : List UInt8} (h : run d bytes = some (.str text)) : text.length < bytes.length := by
  obtain ⟨m, hm, hres⟩ := bind_eq_some_iff.1 h
  have hshr := short_foldlM (k := 0) (m := ⟨[], .value⟩) trivial hm
  obtain ⟨contexts, mode⟩ := m
  cases contexts with
  | cons x rest => cases mode <;> cases hres
  | nil =>
    cases mode with
    | done v =>
      cases hres
      simp only [Short, strLength] at hshr
      omega
    | ended v =>
      cases hres
      simp only [Short, strLength] at hshr
      omega
    | number n => exact absurd (strLength_finish hres) (by simp [strLength])
    | _ => cases hres

theorem length_lt_of_parse {bytes text : List UInt8} (h : parse d bytes = some (.str text)) : text.length < bytes.length := by
  unfold parse at h
  split at h
  · have := length_lt_of_run h
    simp only [List.length_cons]
    omega
  · cases h
  · exact length_lt_of_run h

end JsonText
