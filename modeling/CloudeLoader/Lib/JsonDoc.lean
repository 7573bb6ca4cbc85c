import Mathlib

/-!
# JSON documents with typed accessors

Documents, and accessors that convert a value to the type the caller asks for.  An accessor throws if the value has
another type; looking up a member with a default throws if the document is not an object.
-/

namespace JsonDoc

inductive Json where
  | null
  | bool (b : Bool)
  | int (n : Int)
  | float (trunc : Int)
  | str (s : String)
  | bin
  | arr (xs : List Json)
  | obj (fields : List (String × Json))

inductive JsonError where
  | notObject
  | typeMismatch
  deriving DecidableEq

def int32 (n : Int) : Int := n.bmod (2 ^ 32)

theorem int32_emod_eq {m n : Int} (h : int32 m = int32 n) : m % 2 ^ 32 = n % 2 ^ 32 := by
  unfold int32 at h
  have hmod := congrArg (fun n : Int => n % ((2 ^ 32 : Nat) : Int)) h
  simp only [Int.bmod_emod] at hmod
  exact hmod

theorem int32_inj {a b : Nat} (ha : a < 2 ^ 32) (hb : b < 2 ^ 32) (h : int32 (a + 1) = int32 (b + 1)) : a = b := by
  have hmod := int32_emod_eq h
  omega

namespace Json

def isObject : Json → Bool
  | obj _ => true
  | _ => false

def isString : Json → Bool
  | str _ => true
  | _ => false

def isArithmetic : Json → Bool
  | bool _ => true
  | int _ => true
  | float _ => true
  | _ => false

def field? : Json → String → Option Json
  | obj fields, key => fields.lookup key
  | _, _ => none

def contains (j : Json) (key : String) : Bool := (j.field? key).isSome

def getString : Json → Except JsonError String
  | str s => .ok s
  | _ => .error .typeMismatch

def getInt : Json → Except JsonError Int
  | bool b => .ok (if b then 1 else 0)
  | int n => .ok (int32 n)
  | float n => .ok (int32 n)
  | _ => .error .typeMismatch

def getEnum : Json → Except JsonError Int
  | int n => .ok (int32 n)
  | float n => .ok (int32 n)
  | _ => .error .typeMismatch

def isBool : Json → Bool
  | bool _ => true
  | _ => false

def getBool : Json → Except JsonError Bool
  | bool b => .ok b
  | _ => .error .typeMismatch

def value {α : Type*} (get : Json → Except JsonError α) (j : Json) (key : String) (default : α) : Except JsonError α :=
  if j.isObject then
    match j.field? key with
    | none => .ok default
    | some v => get v
  else .error .notObject

def misfit (j : Json) (key : String) (fits : Json → Bool) : Bool := (j.field? key).any fun v => !fits v

/-- The conversion fails on exactly the values that do not fit. -/
def Throws {α : Type*} (get : Json → Except JsonError α) (fits : Json → Bool) : Prop :=
  ∀ v, (∃ e, get v = .error e) ↔ fits v = false

theorem throws_getString : Throws getString isString := by
  intro v
  cases v <;> simp [getString, isString]

theorem throws_getInt : Throws getInt isArithmetic := by
  intro v
  cases v <;> simp [getInt, isArithmetic]

theorem throws_getBool : Throws getBool isBool := by
  intro v
  cases v <;> simp [getBool, isBool]

section Value

variable {α : Type*} {get : Json → Except JsonError α} {fits : Json → Bool} {j : Json} {key : String}

theorem value_of_misfit (h : Throws get fits) (hobj : j.isObject = true) (default : α) (hmis : j.misfit key fits = true) :
    ∃ e, value get j key default = .error e := by
  unfold misfit at hmis
  unfold value
  rw [if_pos hobj]
  cases hv : j.field? key with
  | none => simp [hv] at hmis
  | some v =>
    rw [hv] at hmis
    exact (h v).2 (by simpa using hmis)

theorem value_of_fits (h : Throws get fits) (hobj : j.isObject = true) (default : α) (hfits : j.misfit key fits = false) :
    ∃ a, value get j key default = .ok a := by
  unfold misfit at hfits
  unfold value
  rw [if_pos hobj]
  cases hv : j.field? key with
  | none => exact ⟨default, rfl⟩
  | some v =>
    rw [hv] at hfits
    cases hget : get v with
    | error e =>
      have := (h v).1 ⟨e, hget⟩
      simp [this] at hfits
    | ok a => exact ⟨a, hget⟩

theorem value_ok_iff (h : Throws get fits) (default : α) :
    (∃ a, value get j key default = .ok a) ↔ j.isObject = true ∧ j.misfit key fits = false := by
  constructor
  · rintro ⟨a, ha⟩
    have hobj : j.isObject = true := by
      by_contra hno
      rw [value, if_neg hno] at ha
      cases ha
    refine ⟨hobj, ?_⟩
    by_contra hmis
    obtain ⟨e, he⟩ := value_of_misfit h hobj default (by simpa using hmis)
    cases ha.symm.trans he
  · rintro ⟨hobj, hmis⟩
    exact value_of_fits h hobj default hmis

theorem value_json (hobj : j.isObject = true) (key : String) (default : Json) :
    ∃ v, value (fun v => .ok v) j key default = .ok v := by
  unfold value
  rw [if_pos hobj]
  cases j.field? key with
  | none => exact ⟨default, rfl⟩
  | some v => exact ⟨v, rfl⟩

theorem any_isString : (j.field? key).any isString = true ↔ ∃ s, j.field? key = some (str s) := by
  cases j.field? key with
  | none => simp
  | some v => cases v <;> simp [isString]

theorem isObject_of_field {v : Json} (h : j.field? key = some v) : j.isObject = true := by
  cases j with
  | obj fields => rfl
  | _ => cases h

theorem value_of_field {v : Json} (h : j.field? key = some v) (default : α) : value get j key default = get v := by
  rw [value, if_pos (isObject_of_field h), h]

theorem value_of_not_object (hobj : j.isObject = false) (default : α) :
    value get j key default = .error .notObject := by
  rw [value, if_neg (by simp [hobj])]

end Value

end Json

end JsonDoc
