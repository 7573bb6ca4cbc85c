import CloudeLoader.Engine.Encoding
import CloudeLoader.Lib.JsonNumbers

/-!
# Calls of Lua functions (`main.cc` of the host)

`handle_evaluate` pushes the arguments of a call on the stack of the interpreter, calls the function, and reads what it
returns.  Strings go both ways as C strings.
-/

namespace CloudeLoader.LuaHost

open Engine (Bytes utf8 cString cString_of_notMem)

/-! ### Values -/

inductive LuaNumber
  | finite (q : ℚ)
  | infinite (negative : Bool)
  | nan
  deriving DecidableEq

/-- A value; tables, functions, userdata and threads are known by a reference. -/
inductive LuaValue
  | nil
  | boolean (b : Bool)
  | number (n : LuaNumber)
  | string (s : Bytes)
  | table (ref : Nat)
  | function (ref : Nat)
  | userdata (ref : Nat)
  | thread (ref : Nat)
  deriving DecidableEq

/-- The interpreter, by what the host asks of it.  `wide` says that `lua_Integer` has 64 bits; it has the size of a pointer, and
the host for Linux is a program for 32 bits.  `call` is `lua_pcall` with one result. -/
structure LuaState where
  wide : Bool
  doubles : Doubles
  numberText : LuaNumber → Bytes
  numberText_int : ∀ n : ℤ, n.natAbs < 2 ^ 53 → numberText (.finite n) = Decimal.general 14 n
  global : Bytes → LuaValue
  field : Nat → Bytes → LuaValue
  call : Nat → List LuaValue → Except LuaValue LuaValue

namespace LuaState

def text? (L : LuaState) : LuaValue → Option Bytes
  | .string s => some (cString s)
  | .number n => some (cString (L.numberText n))
  | _ => none

def round (L : LuaState) (q : ℚ) : LuaNumber :=
  match L.doubles.nearest q with
  | some r => .finite r
  | none => .infinite (q < 0)

def toInteger (L : LuaState) (n : ℤ) : ℤ := n.bmod (2 ^ if L.wide then 64 else 32)

/-- `is_number_integer`; a page writes a whole number without a fraction and an exponent. -/
def isInteger (q : ℚ) : Bool := q.den = 1 && -2 ^ 63 ≤ q.num && q.num < 2 ^ 64

def push (L : LuaState) : JsonValue → LuaValue
  | .str s => .string (cString s)
  | .bool b => .boolean b
  | .num q => if isInteger q then .number (L.round (L.toInteger q.num)) else .number (L.round q)
  | .nonFinite bits =>
    .number (if bits = 0x7ff0000000000000 then .infinite false else if bits = 0xfff0000000000000 then .infinite true else .nan)
  | _ => .nil

/-! ### Calls -/

def failure (error : Bytes) : JsonValue := .obj [(utf8 "error", .str error), (utf8 "success", .bool false)]

def reply (value : JsonValue) (type : String) : JsonValue :=
  .obj [(utf8 "success", .bool true), (utf8 "value", value), (utf8 "value_type", .str (utf8 type))]

def readResult (L : LuaState) (v : LuaValue) : JsonValue :=
  match L.text? v, v with
  | some s, _ => reply (.str s) "string"
  | none, .boolean b => reply (.bool b) "boolean"
  | none, _ => reply .null "nil"

def argValues (params : JsonValue) : List JsonValue :=
  match params.field? (utf8 "argumentList") with
  | some (.arr xs) => xs
  | some (.obj fields) => fields.map (·.2)
  | _ => []

def resolve (L : LuaState) (methodName : Bytes) : Except Bytes (Nat × List LuaValue) :=
  if methodName.contains 58 then
    let tableName := methodName.takeWhile (· ≠ 58)
    let funcName := methodName.drop (tableName.length + 1)
    match L.global (cString tableName) with
    | .table t =>
      match L.field t (cString funcName) with
      | .function f => .ok (f, [.table t])
      | _ => .error (utf8 "method not found: " ++ methodName)
    | _ => .error (utf8 "table not found: " ++ tableName)
  else
    match L.global (cString methodName) with
    | .function f => .ok (f, [])
    | _ => .error (utf8 "function not found: " ++ methodName)

def handleEvaluate (L : LuaState) (params : JsonValue) : JsonValue :=
  match params.field? (utf8 "methodName") with
  | some (.str methodName) =>
    match L.resolve methodName with
    | .error e => failure e
    | .ok (f, self) =>
      match L.call f (self ++ (argValues params).map L.push) with
      | .error e => failure ((L.text? e).getD (utf8 "unknown Lua error"))
      | .ok v => L.readResult v
  | _ => failure (utf8 "missing methodName")

/-! ### Scalars -/

section Scalars

variable {L : LuaState}

theorem toInteger_bounds {n : ℤ} (h : n.natAbs < 2 ^ 53) : (L.toInteger n).natAbs < 2 ^ 53 := by
  rw [toInteger]
  cases L.wide with
  | true => simp only [if_true, Int.bmod_def]; omega
  | false => simp only [Bool.false_eq_true, if_false, Int.bmod_def]; omega

theorem round_int {n : ℤ} (h : n.natAbs < 2 ^ 53) : L.round n = .finite n := by
  have hexc := L.doubles.exact n 0 (by omega) (by omega)
  rw [pow_zero, mul_one] at hexc
  rw [round, hexc]

theorem push_int {n : ℤ} (h : n.natAbs < 2 ^ 53) : L.push (.num n) = .number (.finite (L.toInteger n)) := by
  have hint : isInteger n = true := by
    simp only [isInteger, Rat.den_intCast, Rat.num_intCast, decide_true, Bool.true_and, Bool.and_eq_true]
    exact ⟨decide_eq_true (by omega), decide_eq_true (by omega)⟩
  simp only [push, hint, if_true, Rat.num_intCast]
  rw [round_int (toInteger_bounds h)]

theorem readResult_int {n : ℤ} (h : n.natAbs < 2 ^ 53) :
    L.readResult (.number (.finite n)) = reply (.str (Decimal.general 14 n)) "string" := by
  simp only [readResult, text?, L.numberText_int n h]
  rw [cString_of_notMem fun hmem => Decimal.ne_zero_of_mem_general hmem rfl]

end Scalars

end LuaState

end CloudeLoader.LuaHost
