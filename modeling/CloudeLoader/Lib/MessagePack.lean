import CloudeLoader.Lib.JsonValue

/-!
# Sizes of MessagePack documents

How many bytes a value takes in MessagePack.  A number takes up to nine bytes; how many is left open, because a value does not
say whether it is kept as an integer or as a floating-point number.
-/

namespace MessagePack

/-- The encoder's choice among the formats of a number. -/
structure Widths where
  number : ℚ → Nat
  number_le : ∀ q, number q ≤ 9

def textHead (n : Nat) : Nat := if n < 32 then 1 else if n < 256 then 2 else if n < 65536 then 3 else 5

def binHead (n : Nat) : Nat := if n < 256 then 2 else if n < 65536 then 3 else 5

def head (n : Nat) : Nat := if n < 16 then 1 else if n < 65536 then 3 else 5

def textSize (bytes : List UInt8) : Nat := textHead bytes.length + bytes.length

mutual

def size (w : Widths) : JsonValue → Nat
  | .null => 1
  | .bool _ => 1
  | .num q => w.number q
  | .nonFinite _ => 9
  | .str s => textSize s
  | .bin bytes => binHead bytes.length + bytes.length
  | .arr xs => head xs.length + sizeList w xs
  | .obj fields => head fields.length + sizeFields w fields

def sizeList (w : Widths) : List JsonValue → Nat
  | [] => 0
  | x :: xs => size w x + sizeList w xs

def sizeFields (w : Widths) : List (List UInt8 × JsonValue) → Nat
  | [] => 0
  | (name, x) :: fields => textSize name + size w x + sizeFields w fields

end

theorem textHead_bounds (n : Nat) : 1 ≤ textHead n ∧ textHead n ≤ 5 := by
  rw [textHead]
  split_ifs <;> decide

theorem textSize_bounds (bytes : List UInt8) : bytes.length + 1 ≤ textSize bytes ∧ textSize bytes ≤ bytes.length + 5 := by
  have := textHead_bounds bytes.length
  rw [textSize]
  omega

end MessagePack
