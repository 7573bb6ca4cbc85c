import Mathlib.Data.Option.Basic
import Mathlib.Tactic.Common

/-!
# Commands that may throw

A command works on a state.  It returns a value or throws, and what it has done to the state until then stays done.  A
command that calls itself again is given fuel, and gives `none` if that is used up.
-/

/-- From a state to the outcome and the state then. -/
abbrev Command (ε σ α : Type) := ExceptT ε (StateT σ Option) α

namespace Command

variable {ε σ α β : Type} {D : Prop} {m : Command ε σ α} {Q R : α → σ → Prop} {E F : σ → Prop} {s : σ}

def eval (m : Command ε σ α) (s : σ) : Option (Except ε α × σ) := m s

def diverge : Command ε σ α := fun _ => none

def demand : Except ε α → Command ε σ α
  | .ok a => pure a
  | .error what => throw what

@[simp] theorem demand_ok (a : α) : (demand (.ok a) : Command ε σ α) = pure a := rfl

@[simp] theorem demand_error (what : ε) : (demand (.error what) : Command ε σ α) = throw what := rfl

def guarded (m : Command ε σ Unit) : Command ε σ Unit := tryCatch m fun _ => pure ()

def only (b : Bool) (m : Command ε σ Unit) : Command ε σ Unit := if b then m else pure ()

def update (f : σ → σ) : Command ε σ Unit := modify f

/-- The state before, with which a command ends as wanted. -/
def wp (D : Prop) (m : Command ε σ α) (Q : α → σ → Prop) (E : σ → Prop) (s : σ) : Prop :=
  match m.eval s with
  | none => D
  | some (.ok a, t) => Q a t
  | some (.error _, t) => E t

theorem wp_mono (h : m.wp D Q E s) (hQ : ∀ a t, Q a t → R a t) (hE : ∀ t, E t → F t) : m.wp D R F s := by
  unfold wp at h ⊢
  split at h
  · exact h
  · exact hQ _ _ h
  · exact hE _ h

@[simp] theorem wp_pure {a : α} : (pure a : Command ε σ α).wp D Q E s ↔ Q a s := Iff.rfl

@[simp] theorem wp_throw {what : ε} : (throw what : Command ε σ α).wp D Q E s ↔ E s := Iff.rfl

@[simp] theorem wp_get {Q : σ → σ → Prop} : (get : Command ε σ σ).wp D Q E s ↔ Q s s := Iff.rfl

@[simp] theorem wp_update {f : σ → σ} {Q : Unit → σ → Prop} : (update f : Command ε σ Unit).wp D Q E s ↔ Q () (f s) := Iff.rfl

@[simp] theorem wp_bind {f : α → Command ε σ β} {Q : β → σ → Prop} :
    (m >>= f).wp D Q E s ↔ m.wp D (fun a => (f a).wp D Q E) E s := by
  have hrun : (m >>= f).eval s = (m.eval s).bind fun x =>
      match x with
      | (.ok a, t) => (f a).eval t
      | (.error what, t) => some (.error what, t) := by
    simp only [eval, bind, ExceptT.bind, ExceptT.mk, StateT.bind]
    rcases m s with _ | ⟨_ | a, t⟩ <;> rfl
  unfold wp
  rw [hrun]
  rcases m.eval s with _ | ⟨_ | a, t⟩ <;> rfl

theorem wp_only {b : Bool} {m : Command ε σ Unit} {Q : Unit → σ → Prop} :
    (only b m).wp D Q E s ↔ (b = true → m.wp D Q E s) ∧ (b = false → Q () s) := by
  cases b <;> simp [only]

theorem wp_demand {x : Except ε α} : (demand x).wp D Q E s ↔ (∀ a, x = .ok a → Q a s) ∧ (∀ what, x = .error what → E s) := by
  cases x <;> simp [demand]

theorem wp_guarded {m : Command ε σ Unit} {Q : Unit → σ → Prop} : (guarded m).wp D Q E s ↔ m.wp D Q (Q ()) s := by
  have hrun : (guarded m).eval s = (m.eval s).bind fun x => some (.ok (), x.2) := by
    simp only [eval, guarded, tryCatch, tryCatchThe, MonadExceptOf.tryCatch, ExceptT.tryCatch, ExceptT.mk, bind, StateT.bind]
    rcases m s with _ | ⟨_ | a, t⟩ <;> rfl
  unfold wp
  rw [hrun]
  rcases m.eval s with _ | ⟨_ | a, t⟩ <;> rfl

/-- A loop, with an invariant that knows which rounds are still to come. -/
theorem wp_forM {f : β → Command ε σ PUnit} {xs : List β} {I : List β → σ → Prop}
    (hstep : ∀ x rest t, x :: rest <:+ xs → I (x :: rest) t → (f x).wp D (fun _ => I rest) E t) (h : I xs s) :
    (forM xs f : Command ε σ PUnit).wp D (fun _ => I []) E s := by
  induction xs generalizing s with
  | nil => simpa using h
  | cons x xs ih =>
    rw [List.forM_cons, wp_bind]
    refine wp_mono (hstep x xs s List.suffix_rfl h) ?_ fun _ h => h
    intro _ t ht
    exact ih (fun y rest t hsuf => hstep y rest t (hsuf.trans (List.suffix_cons x xs))) ht

theorem of_wp {a : α} {t : σ} (h : m.wp D Q E s) (hrun : m.eval s = some (.ok a, t)) : Q a t := by
  unfold wp at h
  rw [hrun] at h
  exact h

theorem exists_of_wp (h : m.wp False Q E s) : ∃ out t, m.eval s = some (out, t) := by
  unfold wp at h
  split at h
  · exact h.elim
  · next hrun => exact ⟨_, _, hrun⟩
  · next hrun => exact ⟨_, _, hrun⟩

end Command
