import Mathlib

/-!
# Byte memory

A flat memory of bytes with the accesses a C program makes: aligned or unaligned little-endian 32-bit words, `memset`,
`memcpy`/`memmove`, copying a buffer in, and reading a NUL-terminated string.
-/

namespace ByteMemory

variable {bs : List UInt8}

abbrev Mem := Nat → UInt8

abbrev CString := { bs : List UInt8 // (0 : UInt8) ∉ bs }

def u32 (n : Nat) : Nat := n % 2 ^ 32

/-- The memories agree on `[lo, hi)`. -/
def EqOn (m' m : Mem) (lo hi : Nat) : Prop := ∀ a, lo ≤ a → a < hi → m' a = m a

def load32 (m : Mem) (a : Nat) : Nat :=
  (m a).toNat + 256 * (m (a + 1)).toNat + 65536 * (m (a + 2)).toNat + 16777216 * (m (a + 3)).toNat

def store32 (m : Mem) (a v : Nat) : Mem := fun i =>
  if a ≤ i ∧ i < a + 4 then UInt8.ofNat (v / 256 ^ (i - a)) else m i

def fill (m : Mem) (a n : Nat) (b : UInt8) : Mem := fun i => if a ≤ i ∧ i < a + n then b else m i

def copy (m : Mem) (dst src n : Nat) : Mem := fun i => if dst ≤ i ∧ i < dst + n then m (src + (i - dst)) else m i

def blit (m : Mem) (a : Nat) (bs : List UInt8) : Mem := fun i =>
  if a ≤ i ∧ i < a + bs.length then bs.getD (i - a) 0 else m i

def cstrBytes (m : Mem) : Nat → Nat → List UInt8
  | 0, _ => []
  | fuel + 1, a => if m a = 0 then [] else m a :: cstrBytes m fuel (a + 1)

theorem zero_notMem_cstrBytes (m : Mem) (fuel a : Nat) : (0 : UInt8) ∉ cstrBytes m fuel a := by
  induction fuel generalizing a with
  | zero => simp [cstrBytes]
  | succ fuel ih =>
    unfold cstrBytes
    split
    · simp
    · rename_i h
      simp only [List.mem_cons, not_or]
      exact ⟨fun h' => h h'.symm, ih (a + 1)⟩

def cstr (m : Mem) (fuel a : Nat) : CString := ⟨cstrBytes m fuel a, zero_notMem_cstrBytes m fuel a⟩

theorem zero_notMem_takeWhile (bs : List UInt8) : (0 : UInt8) ∉ bs.takeWhile (· != 0) := by
  intro h
  simpa using List.mem_takeWhile_imp h

def CString.ofBytes (bs : List UInt8) : CString := ⟨bs.takeWhile (· != 0), zero_notMem_takeWhile bs⟩

def CString.length (s : CString) : Nat := s.1.length

def CString.terminated (s : CString) : List UInt8 := s.1 ++ [0]

/-! ### Frames -/

theorem EqOn.mono {m' m : Mem} {p q p' q' : Nat} (h : EqOn m' m p q) (hp : p ≤ p') (hq : q' ≤ q) :
    EqOn m' m p' q' := fun a h1 h2 => h a (by omega) (by omega)

theorem eqOn_store32 (m : Mem) {a v p q : Nat} (h : q ≤ a ∨ a + 4 ≤ p) : EqOn (store32 m a v) m p q := by
  intro i h1 h2
  unfold store32
  rw [if_neg (by omega)]

theorem eqOn_fill (m : Mem) {a n p q : Nat} {b : UInt8} (h : q ≤ a ∨ a + n ≤ p) :
    EqOn (fill m a n b) m p q := by
  intro i h1 h2
  unfold fill
  rw [if_neg (by omega)]

theorem eqOn_copy (m : Mem) {dst src n p q : Nat} (h : q ≤ dst ∨ dst + n ≤ p) :
    EqOn (copy m dst src n) m p q := by
  intro i h1 h2
  unfold copy
  rw [if_neg (by omega)]

theorem eqOn_blit (m : Mem) {a p q : Nat} (h : q ≤ a ∨ a + bs.length ≤ p) :
    EqOn (blit m a bs) m p q := by
  intro i h1 h2
  unfold blit
  rw [if_neg (by omega)]

/-! ### Words -/

theorem u32_of_lt {n : Nat} (h : n < 2 ^ 32) : u32 n = n := Nat.mod_eq_of_lt h

theorem load32_lt (m : Mem) (a : Nat) : load32 m a < 2 ^ 32 := by
  have h0 := (m a).toNat_lt
  have h1 := (m (a + 1)).toNat_lt
  have h2 := (m (a + 2)).toNat_lt
  have h3 := (m (a + 3)).toNat_lt
  unfold load32
  omega

theorem EqOn.load32_eq {m' m : Mem} {p q a : Nat} (h : EqOn m' m p q) (hp : p ≤ a) (hq : a + 4 ≤ q) :
    load32 m' a = load32 m a := by
  unfold load32
  rw [h a hp (by omega), h (a + 1) (by omega) (by omega), h (a + 2) (by omega) (by omega),
    h (a + 3) (by omega) (by omega)]

@[simp] theorem load32_store32_same (m : Mem) (a v : Nat) : load32 (store32 m a v) a = v % 2 ^ 32 := by
  unfold load32 store32
  simp
  omega

theorem load32_store32_ne (m : Mem) {a b v : Nat} (h : b + 4 ≤ a ∨ a + 4 ≤ b) :
    load32 (store32 m a v) b = load32 m b :=
  (eqOn_store32 m h).load32_eq (Nat.le_refl _) (Nat.le_refl _)

theorem load32_fill (m : Mem) {a n b : Nat} (hp : a ≤ b) (hq : b + 4 ≤ a + n) : load32 (fill m a n 0) b = 0 := by
  unfold load32 fill
  rw [if_pos (by omega), if_pos (by omega), if_pos (by omega), if_pos (by omega)]
  rfl

theorem load32_copy (m : Mem) {dst src n k : Nat} (hk : k + 4 ≤ n) :
    load32 (copy m dst src n) (dst + k) = load32 m (src + k) := by
  unfold load32 copy
  rw [if_pos (by omega), if_pos (by omega), if_pos (by omega), if_pos (by omega)]
  simp only [show dst + k - dst = k by omega, show dst + k + 1 - dst = k + 1 by omega,
    show dst + k + 2 - dst = k + 2 by omega, show dst + k + 3 - dst = k + 3 by omega]
  rfl

/-! ### Strings -/

/-- The bytes `bs` stand at `a`. -/
def HasBytes (m : Mem) (a : Nat) (bs : List UInt8) : Prop := ∀ k (h : k < bs.length), m (a + k) = bs[k]

theorem hasBytes_blit (m : Mem) (a : Nat) (bs : List UInt8) : HasBytes (blit m a bs) a bs := by
  intro k hk
  unfold blit
  rw [if_pos (by omega), Nat.add_sub_cancel_left, List.getD_eq_getElem?_getD, List.getElem?_eq_getElem hk]
  rfl

theorem HasBytes.of_eqOn {m' m : Mem} {a : Nat} (h : HasBytes m a bs)
    (he : EqOn m' m a (a + bs.length)) : HasBytes m' a bs := by
  intro k hk
  rw [he (a + k) (by omega) (by omega)]
  exact h k hk

@[simp] theorem CString.terminated_length (s : CString) : s.terminated.length = s.length + 1 := by
  simp [CString.terminated, CString.length]

private theorem cstrBytes_of_hasBytes {m : Mem} {a fuel : Nat} (h : HasBytes m a (bs ++ [0]))
    (hbs : (0 : UInt8) ∉ bs) (hf : bs.length < fuel) : cstrBytes m fuel a = bs := by
  induction bs generalizing a fuel with
  | nil =>
    obtain ⟨fuel, rfl⟩ : ∃ f, fuel = f + 1 := ⟨fuel - 1, by simp at hf; omega⟩
    have h0 : m a = 0 := h 0 (by simp)
    simp [cstrBytes, h0]
  | cons b bs ih =>
    obtain ⟨fuel, rfl⟩ : ∃ f, fuel = f + 1 := ⟨fuel - 1, by simp at hf; omega⟩
    have h0 : m a = b := h 0 (by simp)
    simp only [List.mem_cons, not_or] at hbs
    have htail : HasBytes m (a + 1) (bs ++ [0]) := by
      intro k hk
      have := h (k + 1) (by simp at hk ⊢; omega)
      rw [show a + 1 + k = a + (k + 1) by omega, this]
      simp
    have hb : ¬ b = 0 := fun e => hbs.1 e.symm
    simp only [cstrBytes, h0, hb, ↓reduceIte]
    rw [ih htail hbs.2 (by simp at hf; omega)]

theorem cstr_of_hasBytes {m : Mem} {a fuel : Nat} {s : CString} (h : HasBytes m a s.terminated)
    (hf : s.length < fuel) : cstr m fuel a = s :=
  Subtype.ext (cstrBytes_of_hasBytes h s.2 hf)

theorem cstr_of_zero {m : Mem} {fuel a : Nat} (h : m a = 0) : cstr m fuel a = ⟨[], by simp⟩ := by
  cases fuel with
  | zero => rfl
  | succ fuel => simp [cstr, cstrBytes, h]

end ByteMemory
