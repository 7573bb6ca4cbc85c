import Mathlib.Data.List.Basic
import Mathlib.Data.List.TakeWhile

/-!
# Text encodings (`encoding.h`, `url_parser.h`)

Base64 and the percent encoding of URLs, on byte strings.  The accumulators of the base64 loops are 32-bit integers, and
`std::hex` writes a byte without a leading zero.
-/

namespace CloudeLoader.Engine

abbrev Bytes := List UInt8

def utf8 (s : String) : Bytes := s.toByteArray.data.toList

def isUtf8 (bytes : Bytes) : Bool := ByteArray.validateUTF8 ⟨bytes.toArray⟩

theorem isUtf8_utf8 (s : String) : isUtf8 (utf8 s) = true := by
  unfold isUtf8 utf8
  rw [ByteArray.validateUTF8_eq_true_iff]
  exact s.isValidUTF8

theorem exists_utf8_of_isUtf8 {bytes} (h : isUtf8 bytes = true) : ∃ s, utf8 s = bytes :=
  ⟨⟨⟨bytes.toArray⟩, ByteArray.validateUTF8_eq_true_iff.1 h⟩, rfl⟩

theorem isUtf8_append {a b} (ha : isUtf8 a = true) (hb : isUtf8 b = true) : isUtf8 (a ++ b) = true := by
  obtain ⟨s, rfl⟩ := exists_utf8_of_isUtf8 ha
  obtain ⟨t, rfl⟩ := exists_utf8_of_isUtf8 hb
  exact isUtf8_utf8 (s ++ t)

def cString (bytes : Bytes) : Bytes := bytes.takeWhile (· ≠ 0)

theorem isPrefix_cString (buf : Bytes) : cString buf <+: buf := List.takeWhile_prefix _

theorem cString_of_notMem {buf} (h : 0 ∉ buf) : cString buf = buf := by
  rw [cString, List.takeWhile_eq_self_iff]
  exact fun b hb => by simpa using ne_of_mem_of_not_mem hb h

theorem notMem_of_all {c : UInt8} {l : Bytes} (h : l.all (· != c) = true) : c ∉ l := by
  intro hmem
  have hne := List.all_eq_true.1 h c hmem
  rw [bne_self_eq_false] at hne
  cases hne

/-! ### Base64 -/

def base64Chars : List Char := "ABCDEFGHIJKLMNOPQRSTUVWXYZabcdefghijklmnopqrstuvwxyz0123456789+/".toList

def base64Char (n : Nat) : Char := base64Chars.getD n 'A'

def base64DecodeLoop (val : BitVec 32) (valb : Int) : List Char → Bytes
  | [] => []
  | c :: rest =>
    match base64Chars.idxOf? c with
    | none => []
    | some t =>
      let val := (val <<< 6) + BitVec.ofNat 32 t
      let valb := valb + 6
      if valb ≥ 0 then UInt8.ofNat (val.sshiftRight valb.toNat).toNat :: base64DecodeLoop val (valb - 8) rest
      else base64DecodeLoop val valb rest

def base64Decode (s : String) : Bytes := base64DecodeLoop 0 (-8) s.toList

def base64Emit (val : BitVec 32) (valb : Int) : Nat → List Char × Int
  | 0 => ([], valb)
  | fuel + 1 =>
    if valb ≥ 0 then
      let (out, valb') := base64Emit val (valb - 6) fuel
      (base64Char ((val.sshiftRight valb.toNat).toNat % 64) :: out, valb')
    else ([], valb)

def base64EncodeLoop (val : BitVec 32) (valb : Int) : Bytes → List Char
  | [] =>
    if valb > -6 then [base64Char (((val <<< 8).sshiftRight (valb + 8).toNat).toNat % 64)] else []
  | c :: rest =>
    let val := (val <<< 8) + BitVec.ofNat 32 c.toNat
    let (out, valb) := base64Emit val (valb + 8) 3
    out ++ base64EncodeLoop val valb rest

def base64Encode (bytes : Bytes) : String :=
  let out := base64EncodeLoop 0 (-6) bytes
  String.ofList (out ++ List.replicate ((4 - out.length % 4) % 4) '=')

/-- `char_array_4`, from `char_array_3`. -/
def charArray4 (a b c : UInt8) : List UInt8 :=
  [(a &&& 0xfc) >>> 2, ((a &&& 0x03) <<< 4) + ((b &&& 0xf0) >>> 4), ((b &&& 0x0f) <<< 2) + ((c &&& 0xc0) >>> 6), c &&& 0x3f]

/-- The loop of `Base64Encode` on a vector and of `Lua_Base64Encode`; `group` is what `char_array_3` holds. -/
def base64EncodeGroups (group : Bytes) : Bytes → List Char
  | [] =>
    if group = [] then []
    else
      ((charArray4 (group.getD 0 0) (group.getD 1 0) (group.getD 2 0)).map (base64Char ·.toNat)).take (group.length + 1) ++
        List.replicate (3 - group.length) '='
  | c :: rest =>
    if group.length = 2 then
      (charArray4 (group.getD 0 0) (group.getD 1 0) c).map (base64Char ·.toNat) ++ base64EncodeGroups [] rest
    else base64EncodeGroups (group ++ [c]) rest

def base64EncodeVector (bytes : Bytes) : String := String.ofList (base64EncodeGroups [] bytes)

/-! ### URLs -/

def isAlnum (c : UInt8) : Bool :=
  (48 ≤ c && c ≤ 57) || (65 ≤ c && c ≤ 90) || (97 ≤ c && c ≤ 122)

def hexDigit? (c : UInt8) : Option Nat :=
  if 48 ≤ c && c ≤ 57 then some (c.toNat - 48)
  else if 65 ≤ c && c ≤ 70 then some (c.toNat - 55)
  else if 97 ≤ c && c ≤ 102 then some (c.toNat - 87)
  else none

def upperHexDigit (n : Nat) : UInt8 := if n < 10 then UInt8.ofNat (48 + n) else UInt8.ofNat (55 + n)

def upperHex (c : UInt8) : Bytes :=
  if c.toNat < 16 then [upperHexDigit c.toNat] else [upperHexDigit (c.toNat / 16), upperHexDigit (c.toNat % 16)]

def encodeByte (c : UInt8) : Bytes :=
  if isAlnum c || c == 45 || c == 95 || c == 46 || c == 126 || c == 47 then [c]
  else if c == 32 then [43]
  else 37 :: upperHex c

def encodeUrl (value : Bytes) : Bytes := value.flatMap encodeByte

def decodeUrl : Bytes → Bytes
  | [] => []
  | [c] => if c == 37 then [] else if c == 43 then [32] else [c]
  | [c, d] => if c == 37 then decodeUrl [d] else (if c == 43 then 32 else c) :: decodeUrl [d]
  | c :: d :: e :: rest =>
    if c == 37 then
      match hexDigit? d, hexDigit? e with
      | some h, some l => UInt8.ofNat (h * 16 + l) :: decodeUrl rest
      | _, _ => decodeUrl (d :: e :: rest)
    else (if c == 43 then 32 else c) :: decodeUrl (d :: e :: rest)

def getPathFromUrl (path : Bytes) : Bytes := 47 :: decodeUrl (path.takeWhile (· ≠ 63))

end CloudeLoader.Engine
