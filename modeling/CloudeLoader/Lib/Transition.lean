import Mathlib

/-!
# Machines that take labelled steps

A machine is a function `step : σ → ε → Option σ`: the label says which of the steps that are possible in a state is
taken, and a label that is not possible gives `none`.  `run` takes the steps of a list.
-/

namespace Transition

open List Option

variable {σ ε : Type*} {step : σ → ε → Option σ} {s s' : σ} {e : ε} {es fs : List ε} {ok : σ → ε → Bool}

def run (step : σ → ε → Option σ) (s : σ) (es : List ε) : Option σ := es.foldlM step s

@[simp] theorem run_nil : run step s [] = some s := rfl

theorem run_cons : run step s (e :: es) = (step s e).bind fun t => run step t es := by
  rfl

theorem run_append : run step s (es ++ fs) = (run step s es).bind fun t => run step t fs := by
  simp only [run, foldlM_append]
  rfl

theorem run_concat : run step s (es ++ [e]) = (run step s es).bind fun t => step t e := by
  rw [run_append]
  cases run step s es with
  | none => rfl
  | some t => simp only [bind_some, run_cons, run_nil, bind_fun_some]

/-- What holds in the first state and is kept by every step holds after every run.  The property may speak about the
steps that were taken. -/
theorem run_induction {P : List ε → σ → Prop} (h₀ : P [] s)
    (hstep : ∀ {es t e t'}, run step s es = some t → P es t → step t e = some t' → P (es ++ [e]) t')
    (h : run step s es = some s') : P es s' := by
  induction es using List.reverseRecOn generalizing s' with
  | nil =>
    obtain rfl : s = s' := some.inj h
    exact h₀
  | append_singleton es e ih =>
    rw [run_concat] at h
    obtain ⟨t, ht, h⟩ := bind_eq_some_iff.1 h
    exact hstep ht (ih ht) h

/-- Steps of one kind are counted by what they take from a rank that no other step increases. -/
theorem run_rank {rank : σ → Nat} {own : ε → Bool}
    (hstep : ∀ {es t e t'}, run step s es = some t → step t e = some t' → rank t' + (if own e then 1 else 0) ≤ rank t)
    (h : run step s es = some s') : rank s' + es.countP own ≤ rank s := by
  refine run_induction (P := fun es t => rank t + es.countP own ≤ rank s) (by simp) ?_ h
  intro es t e t' hrun ih ht
  have := hstep hrun ht
  rw [countP_append, countP_singleton]
  omega

def Halted (step : σ → ε → Option σ) (own : ε → Bool) (s : σ) : Prop := ∀ e, own e = true → step s e = none

/-- When each step of one kind lowers a rank, such steps lead to a state in which none of them is possible. -/
theorem exists_run_halted (rank : σ → Nat) {own : ε → Bool} {P : σ → Prop} (hP : ∀ {t e t'}, P t → step t e = some t' → P t')
    (hrank : ∀ {t e t'}, P t → own e = true → step t e = some t' → rank t' < rank t) (hs : P s) :
    ∃ es t, run step s es = some t ∧ Halted step own t := by
  induction hn : rank s using Nat.strongRecOn generalizing s with
  | ind n ih =>
    by_cases hhalt : Halted step own s
    · exact ⟨[], s, rfl, hhalt⟩
    · simp only [Halted, not_forall] at hhalt
      obtain ⟨e, hown, he⟩ := hhalt
      obtain ⟨t, ht⟩ := ne_none_iff_exists'.1 he
      have hlt := hrank hs hown ht
      obtain ⟨es, u, hrun, hu⟩ := ih (rank t) (by omega) (hP hs ht) rfl
      exact ⟨e :: es, u, by rw [run_cons, ht]; exact hrun, hu⟩

/-- Every step of the list is allowed in the state it is taken in. -/
def along (step : σ → ε → Option σ) (ok : σ → ε → Bool) (s : σ) : List ε → Bool
  | [] => true
  | e :: es => ok s e && ((step s e).all fun t => along step ok t es)

theorem along_append (h : run step s es = some s') :
    along step ok s (es ++ fs) = (along step ok s es && along step ok s' fs) := by
  induction es generalizing s with
  | nil =>
    obtain rfl : s = s' := some.inj h
    simp [along]
  | cons f es ih =>
    obtain ⟨t, ht, h⟩ := bind_eq_some_iff.1 h
    simp only [cons_append, along, ht, all_some, ih h, Bool.and_assoc]

theorem along_concat (h : run step s es = some s') :
    along step ok s (es ++ [e]) = (along step ok s es && ok s' e) := by
  rw [along_append h]
  cases hstep : step s' e <;> simp [along, hstep]

def Reaches (step : σ → ε → Option σ) (s t : σ) : Prop := ∃ es, run step s es = some t

theorem Reaches.refl : Reaches step s s := ⟨[], rfl⟩

theorem Reaches.trans {t u : σ} (h₁ : Reaches step s t) (h₂ : Reaches step t u) : Reaches step s u := by
  obtain ⟨es, hes⟩ := h₁
  obtain ⟨fs, hfs⟩ := h₂
  exact ⟨es ++ fs, by rw [run_append, hes]; exact hfs⟩

theorem Reaches.of_step {t : σ} (h : step s e = some t) : Reaches step s t := ⟨[e], by rw [run_cons, h]; rfl⟩

/-- There is a run from one state to the other with allowed steps only. -/
def ReachesBy (step : σ → ε → Option σ) (ok : σ → ε → Bool) (s t : σ) : Prop :=
  ∃ es, run step s es = some t ∧ along step ok s es = true

theorem ReachesBy.refl : ReachesBy step ok s s := ⟨[], rfl, rfl⟩

theorem ReachesBy.trans {t u : σ} (h₁ : ReachesBy step ok s t) (h₂ : ReachesBy step ok t u) :
    ReachesBy step ok s u := by
  obtain ⟨es, hes, hok⟩ := h₁
  obtain ⟨fs, hfs, hok'⟩ := h₂
  exact ⟨es ++ fs, by rw [run_append, hes]; exact hfs, by rw [along_append hes, hok, hok']; rfl⟩

theorem ReachesBy.of_step {t : σ} (h : step s e = some t) (hok : ok s e = true) :
    ReachesBy step ok s t :=
  ⟨[e], by rw [run_cons, h]; rfl, by simp [along, h, hok]⟩

theorem Reaches.reachesBy {t : σ} (h : Reaches step s t) (hok : ∀ s e, ok s e = true) : ReachesBy step ok s t := by
  obtain ⟨es, hrun⟩ := h
  refine ⟨es, hrun, ?_⟩
  induction es generalizing s with
  | nil => rfl
  | cons e es ih =>
    obtain ⟨a, ha, hrun⟩ := bind_eq_some_iff.1 hrun
    simp only [along, hok, ha, all_some, Bool.true_and]
    exact ih hrun

/-- What the allowed steps preserve holds after every run of allowed steps. -/
theorem ReachesBy.preserves {P : σ → Prop} {t : σ} (h : ReachesBy step ok s t) (hs : P s)
    (hstep : ∀ {a e b}, P a → ok a e = true → step a e = some b → P b) : P t := by
  obtain ⟨es, hrun, hok⟩ := h
  induction es generalizing s with
  | nil =>
    obtain rfl : s = t := some.inj hrun
    exact hs
  | cons e es ih =>
    obtain ⟨a, ha, hrun⟩ := bind_eq_some_iff.1 hrun
    simp only [along, ha, all_some, Bool.and_eq_true] at hok
    exact ih (hstep hs hok.1 ha) hrun hok.2

/-- A property that holds in the first state and, where it holds, is kept by just the allowed steps, holds in every state of a
run if and only if all steps are allowed. -/
theorem forall_take_iff_along {f : σ → ε → σ} {P Q : σ → Prop} (hQ : Q s)
    (hQstep : ∀ {s e}, Q s → Q (f s e)) (hP : P s) (hstep : ∀ {s e}, Q s → P s → (P (f s e) ↔ ok s e = true)) :
    (∀ k, P ((es.take k).foldl f s)) ↔ along (fun s e => some (f s e)) ok s es = true := by
  induction es generalizing s with
  | nil => simp [along, hP]
  | cons e es ih =>
    simp only [along, all_some, Bool.and_eq_true]
    constructor
    · intro h
      have hnext : P (f s e) := h 1
      exact ⟨(hstep hQ hP).1 hnext, (ih (hQstep hQ) hnext).1 fun k => h (k + 1)⟩
    · rintro ⟨hok, haln⟩ k
      have hnext := (hstep hQ hP).2 hok
      cases k with
      | zero => exact hP
      | succ k => exact (ih (hQstep hQ) hnext).2 haln k

/-! ### Machines with a list of parties -/

theorem lt_of_getElem? {α} {l : List α} {i : Nat} {x} (h : l[i]? = some x) : i < l.length :=
  (List.getElem?_eq_some_iff.1 h).1

/-- A new party has come in. -/
theorem getElem?_arrive {α} {l : List α} {i : Nat} {x new} (h : (l ++ [new])[i]? = some x) :
    l[i]? = some x ∨ i = l.length ∧ x = new := by
  rcases Nat.lt_or_ge i l.length with hi | hi
  · rw [getElem?_append_left hi] at h
    exact .inl h
  · rw [getElem?_append_right hi, getElem?_singleton] at h
    split at h <;> cases h
    exact .inr ⟨by omega, rfl⟩

/-- One party has taken a step. -/
theorem getElem?_move {α} {l : List α} {i j : Nat} {x old new} (hi : l[i]? = some old)
    (h : (l.set i new)[j]? = some x) : j = i ∧ x = new ∨ j ≠ i ∧ l[j]? = some x := by
  by_cases hj : j = i
  · subst hj
    rw [getElem?_set_self (lt_of_getElem? hi)] at h
    exact .inl ⟨rfl, (some.inj h).symm⟩
  · rw [getElem?_set_ne (Ne.symm hj)] at h
    exact .inr ⟨hj, h⟩

/-- A sum over threads of which one takes a step. -/
theorem sum_map_set {α : Type} {f : α → Nat} {a b : α} {l : List α} {i : Nat} (h : l[i]? = some a) :
    ((l.set i b).map f).sum + f a = (l.map f).sum + f b := by
  induction l generalizing i with
  | nil => cases h
  | cons d l ih =>
    cases i with
    | zero =>
      obtain rfl : d = a := some.inj h
      simp only [set_cons_zero, map_cons, sum_cons]
      omega
    | succ i =>
      have := ih (by simpa using h)
      simp only [set_cons_succ, map_cons, sum_cons]
      omega

end Transition
