import Mathlib.Tactic.Common

/-!
# Programs that may stop and wait

A program over a state returns a value, or it stops at a place where it waits for something that does not come.  In both
cases the state it has reached is known.
-/

def Blocking (σ α : Type) : Type := σ → σ × Option α

namespace Blocking

variable {σ α β : Type}

instance instMonad : Monad (Blocking σ) where
  pure a := fun s => (s, some a)
  bind m f := fun s =>
    match m s with
    | (s', some a) => f a s'
    | (s', none) => (s', none)

def block : Blocking σ α := fun s => (s, none)

def get : Blocking σ σ := fun s => (s, some s)

def modify (f : σ → σ) : Blocking σ Unit := fun s => (f s, some ())

def forEach (f : α → Blocking σ Unit) : List α → Blocking σ Unit
  | [] => pure ()
  | x :: xs => do
    f x
    forEach f xs

/-- From a state with `P`, the program returns with `Q` or stops with `B`. -/
def Triple (P : σ → Prop) (m : Blocking σ α) (Q : α → σ → Prop) (B : σ → Prop) : Prop :=
  ∀ s, P s → match m s with
    | (s', some a) => Q a s'
    | (s', none) => B s'

/-- The program keeps `P`, or stops with `B`. -/
abbrev Keeps (P : σ → Prop) (m : Blocking σ α) (B : σ → Prop) : Prop := Triple P m (fun _ => P) B

namespace Triple

variable {P : σ → Prop} {Q : α → σ → Prop} {R : β → σ → Prop} {B : σ → Prop} {m : Blocking σ α} {f : α → Blocking σ β}

protected theorem pure {a : α} (h : ∀ s, P s → Q a s) : Triple P (pure a) Q B := h

protected theorem block (h : ∀ s, P s → B s) : Triple P block Q B := h

protected theorem modify {g : σ → σ} {Q : Unit → σ → Prop} (h : ∀ s, P s → Q () (g s)) : Triple P (modify g) Q B := h

protected theorem bind (hm : Triple P m Q B) (hf : ∀ a, Triple (Q a) (f a) R B) : Triple P (m >>= f) R B := by
  intro s hs
  have h := hm s hs
  show match (match m s with | (s', some a) => f a s' | (s', none) => (s', none)) with
    | (s', some a) => R a s'
    | (s', none) => B s'
  split at h
  · exact hf _ _ h
  · exact h

theorem get_bind {f : σ → Blocking σ β} (hf : ∀ s₀, P s₀ → Triple (· = s₀) (f s₀) R B) : Triple P (get >>= f) R B :=
  fun s hs => hf s hs s rfl

theorem outcome (hm : Triple P m Q B) {s : σ} (hs : P s) :
    (∃ a, (m s).2 = some a ∧ Q a (m s).1) ∨ ((m s).2 = none ∧ B (m s).1) := by
  have h := hm s hs
  split at h
  · next s' a heq =>
    rw [heq]
    exact .inl ⟨a, rfl, h⟩
  · next s' heq =>
    rw [heq]
    exact .inr ⟨rfl, h⟩

theorem conseq {P' : σ → Prop} {Q' : α → σ → Prop} (hm : Triple P m Q B) (hP : ∀ s, P' s → P s)
    (hQ : ∀ a s, Q a s → Q' a s) : Triple P' m Q' B := by
  intro s hs
  have h := hm s (hP s hs)
  split at h
  · exact hQ _ _ h
  · exact h

theorem forEach {g : α → Blocking σ Unit} (hg : ∀ a, Keeps P (g a) B) (xs : List α) :
    Keeps P (forEach g xs) B := by
  induction xs with
  | nil => exact Triple.pure fun _ h => h
  | cons x xs ih => exact (hg x).bind fun _ => ih

theorem forEach_rest {P : List α → σ → Prop} {g : α → Blocking σ Unit}
    (hg : ∀ x xs, Triple (P (x :: xs)) (g x) (fun _ => P xs) B) (xs : List α) :
    Triple (P xs) (Blocking.forEach g xs) (fun _ => P []) B := by
  induction xs with
  | nil => exact Triple.pure fun _ h => h
  | cons x xs ih => exact (hg x xs).bind fun _ => ih

end Triple

end Blocking
