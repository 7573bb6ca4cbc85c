import CloudeLoader.Lib.Transition

/-!
# A recursive lock and a plain lock

Threads enter and leave a recursive lock, and lock and unlock a plain one.  A thread that is inside the recursive lock can
wait for the plain one while the thread that holds the plain one waits to enter.
-/

namespace TwoLocks

open Function Nat

inductive Action
  | enter
  | leave
  | lock
  | unlock
  deriving DecidableEq

namespace Action

def newDepth : Action → Nat → Nat
  | enter, d => d + 1
  | leave, d => d - 1
  | _, d => d

def newLocked : Action → Bool → Bool
  | lock, _ => true
  | unlock, _ => false
  | _, l => l

/-- The thread has what it gives back, and does not lock twice. -/
def fits : Action → Nat → Bool → Prop
  | enter, _, _ => True
  | leave, d, _ => 0 < d
  | lock, _, l => l = false
  | unlock, _, l => l = true

end Action

/-- For each thread: what it has still to do, how often it is inside the recursive lock, and whether it holds the plain one. -/
structure State (ι : Type*) where
  todo : ι → List Action
  depth : ι → Nat
  locked : ι → Bool

variable {ι : Type*}

def initial (todo : ι → List Action) : State ι := ⟨todo, fun _ => 0, fun _ => false⟩

/-- The thread locks the plain lock before it has left the recursive one as often as it is inside. -/
def locksInside (d : Nat) : List Action → Bool
  | [] => false
  | a :: rest => d ≠ 0 && (a = .lock || locksInside (a.newDepth d) rest)

theorem locksInside_zero (acts : List Action) : locksInside 0 acts = false := by
  cases acts <;> rfl

theorem locksInside_rest {d : Nat} {a : Action} {rest : List Action} (h : locksInside d (a :: rest) = false)
    (hd : d ≠ 0 ∨ a ≠ .enter) : locksInside (a.newDepth d) rest = false := by
  by_cases hzero : d = 0
  · have hnew : a.newDepth d = 0 := by
      cases a with
      | enter => exact absurd rfl (hd.resolve_left (by simp [hzero]))
      | _ => simp [Action.newDepth, hzero]
    rw [hnew, locksInside_zero]
  · simp only [locksInside, ne_eq, hzero, not_false_eq_true, decide_true, Bool.true_and, Bool.or_eq_false_iff] at h
    exact h.2

def Possible (s : State ι) (i : ι) : Action → Prop
  | .enter => ∀ j, j ≠ i → s.depth j = 0
  | .leave => 0 < s.depth i
  | .lock => ∀ j, s.locked j = false
  | .unlock => s.locked i = true

variable [DecidableEq ι] [Fintype ι]

instance instDecidablePossible (s : State ι) (i : ι) : (a : Action) → Decidable (Possible s i a)
  | .enter => inferInstanceAs (Decidable (∀ j, j ≠ i → s.depth j = 0))
  | .leave => inferInstanceAs (Decidable (0 < s.depth i))
  | .lock => inferInstanceAs (Decidable (∀ j, s.locked j = false))
  | .unlock => inferInstanceAs (Decidable (s.locked i = true))

def step (s : State ι) (i : ι) : Option (State ι) :=
  match s.todo i with
  | [] => none
  | a :: rest =>
    if Possible s i a then
      some ⟨update s.todo i rest, update s.depth i (a.newDepth (s.depth i)),
        update s.locked i (a.newLocked (s.locked i))⟩
    else none

/-- A thread that will lock inside enters only while no other thread has locked, and a thread locks outside only while no other
thread will lock inside. -/
def careful (s : State ι) (i : ι) : Bool :=
  match s.todo i with
  | .enter :: rest => 0 < s.depth i || !locksInside 1 rest || decide (∀ j, j ≠ i → s.locked j = false)
  | .lock :: _ => 0 < s.depth i || decide (∀ j, j ≠ i → locksInside (s.depth j) (s.todo j) = false)
  | _ => true

omit [DecidableEq ι] [Fintype ι] in
/-- One thread is inside and waits to lock, another has locked and waits to enter. -/
def Deadlocked (s : State ι) : Prop :=
  ∃ i j, 0 < s.depth i ∧ (s.todo i).head? = some .lock ∧ s.locked j = true ∧ s.depth j = 0 ∧
    (s.todo j).head? = some .enter

/-- What a thread has to do leaves both locks as often as it takes them. -/
def Balanced : Nat → Bool → List Action → Prop
  | d, l, [] => d = 0 ∧ l = false
  | d, l, a :: rest => a.fits d l ∧ Balanced (a.newDepth d) (a.newLocked l) rest

structure Safe (s : State ι) : Prop where
  balanced : ∀ i, Balanced (s.depth i) (s.locked i) (s.todo i)
  inside : ∀ i j, 0 < s.depth i → 0 < s.depth j → i = j
  holder : ∀ i j, s.locked i = true → s.locked j = true → i = j
  apart : ∀ i j, i ≠ j → s.locked j = true → locksInside (s.depth i) (s.todo i) = false

/-! ### Steps -/

variable {s s' : State ι} {i j : ι} {a : Action} {rest : List Action}

theorem step_cases (h : step s i = some s') :
    ∃ a rest, s.todo i = a :: rest ∧ Possible s i a ∧ s' = ⟨update s.todo i rest,
      update s.depth i (a.newDepth (s.depth i)), update s.locked i (a.newLocked (s.locked i))⟩ := by
  unfold step at h
  split at h
  · cases h
  · next a rest htodo =>
    split at h
    · next hpos => exact ⟨a, rest, htodo, hpos, (Option.some.inj h).symm⟩
    · cases h

namespace Safe

omit [DecidableEq ι] [Fintype ι] in
theorem depth_of_possible (h : Safe s) (hpss : Possible s i a) (hd : 0 < a.newDepth (s.depth i)) (hj : j ≠ i) :
    s.depth j = 0 := by
  cases a with
  | enter => exact hpss j hj
  | leave => exact Nat.eq_zero_of_not_pos fun hpos => hj (h.inside j i hpos hpss)
  | lock => exact Nat.eq_zero_of_not_pos fun hpos => hj (h.inside j i hpos hd)
  | unlock => exact Nat.eq_zero_of_not_pos fun hpos => hj (h.inside j i hpos hd)

omit [DecidableEq ι] [Fintype ι] in
theorem locked_of_possible (h : Safe s) (hpos : Possible s i a) (hl : a.newLocked (s.locked i) = true) (hj : j ≠ i) :
    s.locked j = false := by
  cases a with
  | enter => exact eq_false_of_ne_true fun hloc => hj (h.holder j i hloc hl)
  | leave => exact eq_false_of_ne_true fun hloc => hj (h.holder j i hloc hl)
  | lock => exact hpos j
  | unlock => cases hl

theorem apart_self (h : Safe s) (hcar : careful s i = true) (htodo : s.todo i = a :: rest) (hj : j ≠ i)
    (hloc : s.locked j = true) : locksInside (a.newDepth (s.depth i)) rest = false := by
  have hold := h.apart i j (Ne.symm hj) hloc
  rw [htodo] at hold
  by_cases hd : s.depth i ≠ 0 ∨ a ≠ .enter
  · exact locksInside_rest hold hd
  · obtain ⟨hzero, rfl⟩ : s.depth i = 0 ∧ a = .enter := by simpa using hd
    simp only [careful, htodo, hzero, lt_irrefl, decide_false, Bool.false_or, Bool.or_eq_true, Bool.not_eq_true',
      decide_eq_true_eq] at hcar
    rw [hzero]
    rcases hcar with hcar | hcar
    · exact hcar
    · have := hcar j hj
      rw [hloc] at this
      cases this

theorem apart_other (h : Safe s) (hcar : careful s i = true) (htodo : s.todo i = a :: rest) (hj : j ≠ i)
    (hloc : a.newLocked (s.locked i) = true) : locksInside (s.depth j) (s.todo j) = false := by
  cases a with
  | enter => exact h.apart j i hj hloc
  | leave => exact h.apart j i hj hloc
  | lock =>
    simp only [careful, htodo, Bool.or_eq_true, decide_eq_true_eq] at hcar
    rcases hcar with hins | hcar
    · have hzero : s.depth j = 0 := Nat.eq_zero_of_not_pos fun hpos => hj (h.inside j i hpos hins)
      rw [hzero, locksInside_zero]
    · exact hcar j hj
  | unlock => cases hloc

theorem step (h : Safe s) (hcar : careful s i = true) (hstep : TwoLocks.step s i = some s') : Safe s' := by
  obtain ⟨a, rest, htodo, hpos, rfl⟩ := step_cases hstep
  have hbal := h.balanced i
  rw [htodo] at hbal
  refine ⟨?_, ?_, ?_, ?_⟩
  · intro j
    by_cases hj : j = i
    · subst hj
      simp only [update_self]
      exact hbal.2
    · simp only [update_of_ne hj]
      exact h.balanced j
  · intro j k hj hk
    by_cases hji : j = i <;> by_cases hki : k = i <;>
      simp only [hji, hki, update_self, update_of_ne, ne_eq, not_false_eq_true] at hj hk ⊢
    · exact absurd (h.depth_of_possible hpos hj hki) (ne_of_gt hk)
    · exact absurd (h.depth_of_possible hpos hk hji) (ne_of_gt hj)
    · exact h.inside j k hj hk
  · intro j k hj hk
    by_cases hji : j = i <;> by_cases hki : k = i <;>
      simp only [hji, hki, update_self, update_of_ne, ne_eq, not_false_eq_true] at hj hk ⊢
    · rw [h.locked_of_possible hpos hj hki] at hk
      cases hk
    · rw [h.locked_of_possible hpos hk hji] at hj
      cases hj
    · exact h.holder j k hj hk
  · intro j k hjk hk
    by_cases hji : j = i
    · subst hji
      simp only [update_self, update_of_ne (Ne.symm hjk)] at hk ⊢
      exact h.apart_self hcar htodo (Ne.symm hjk) hk
    · by_cases hki : k = i
      · subst hki
        simp only [update_self, update_of_ne hji] at hk ⊢
        exact h.apart_other hcar htodo hji hk
      · simp only [update_of_ne hji, update_of_ne hki] at hk ⊢
        exact h.apart j k hjk hk

omit [DecidableEq ι] [Fintype ι] in
theorem not_deadlocked (h : Safe s) : ¬ Deadlocked s := by
  rintro ⟨i, j, hins, hlock, hloc, hzero, -⟩
  have hij : i ≠ j := by
    rintro rfl
    omega
  have hfal := h.apart i j hij hloc
  obtain ⟨rest, htodo⟩ : ∃ rest, s.todo i = .lock :: rest := List.head?_eq_some_iff.1 hlock
  simp [htodo, locksInside, ne_of_gt hins] at hfal

/-! ### Progress -/

def CanStep (s : State ι) (i : ι) : Prop := ∃ a rest, s.todo i = a :: rest ∧ Possible s i a ∧ careful s i = true

omit [DecidableEq ι] [Fintype ι] in
theorem exists_todo (h : Safe s) (hi : 0 < s.depth i ∨ s.locked i = true) : ∃ a rest, s.todo i = a :: rest := by
  have hbal := h.balanced i
  cases htodo : s.todo i with
  | nil =>
    rw [htodo] at hbal
    obtain ⟨hd, hl⟩ := hbal
    rcases hi with hi | hi
    · omega
    · cases hl.symm.trans hi
  | cons a rest => exact ⟨a, rest, rfl⟩

theorem canStep_inside (h : Safe s) (hi : 0 < s.depth i) : CanStep s i := by
  obtain ⟨a, rest, htodo⟩ := h.exists_todo (.inl hi)
  have hbal := h.balanced i
  rw [htodo] at hbal
  refine ⟨a, rest, htodo, ?_, ?_⟩
  · cases a with
    | enter => exact fun j hj => Nat.eq_zero_of_not_pos fun hpos => hj (h.inside j i hpos hi)
    | leave => exact hi
    | lock =>
      intro j
      by_cases hj : j = i
      · rw [hj]
        exact hbal.1
      · refine eq_false_of_ne_true fun hloc => ?_
        have hfal := h.apart i j (Ne.symm hj) hloc
        simp [htodo, locksInside, ne_of_gt hi] at hfal
    | unlock => exact hbal.1
  · cases a <;> simp [careful, htodo, hi]

theorem canStep_locked (h : Safe s) (hout : ∀ j, s.depth j = 0) (hi : s.locked i = true) : CanStep s i := by
  obtain ⟨a, rest, htodo⟩ := h.exists_todo (.inr hi)
  have hbal := h.balanced i
  rw [htodo, hout i, hi] at hbal
  have hoth : ∀ j, j ≠ i → s.locked j = false :=
    fun j hj => eq_false_of_ne_true fun hloc => hj (h.holder j i hloc hi)
  cases a with
  | enter => exact ⟨_, rest, htodo, fun j _ => hout j, by simpa [careful, htodo] using .inr hoth⟩
  | leave => exact absurd hbal.1 (lt_irrefl 0)
  | lock => cases hbal.1
  | unlock => exact ⟨_, rest, htodo, hi, by simp [careful, htodo]⟩

theorem canStep_free (h : Safe s) (hout : ∀ j, s.depth j = 0) (hfree : ∀ j, s.locked j = false) (hi : s.todo i ≠ []) :
    CanStep s i := by
  obtain ⟨a, rest, htodo⟩ := List.exists_cons_of_ne_nil hi
  have hbal := h.balanced i
  rw [htodo, hout i, hfree i] at hbal
  cases a with
  | enter => exact ⟨_, rest, htodo, fun j _ => hout j, by simp [careful, htodo, hfree]⟩
  | leave => exact absurd hbal.1 (lt_irrefl 0)
  | lock => exact ⟨_, rest, htodo, hfree, by simp [careful, htodo, hout, locksInside_zero]⟩
  | unlock => cases hbal.1

theorem exists_canStep (h : Safe s) (hi : s.todo i ≠ []) : ∃ j, CanStep s j := by
  by_cases hins : ∃ j, 0 < s.depth j
  · obtain ⟨j, hj⟩ := hins
    exact ⟨j, h.canStep_inside hj⟩
  · have hout : ∀ j, s.depth j = 0 := fun j => Nat.eq_zero_of_not_pos fun hpos => hins ⟨j, hpos⟩
    by_cases hloc : ∃ j, s.locked j = true
    · obtain ⟨j, hj⟩ := hloc
      exact ⟨j, h.canStep_locked hout hj⟩
    · exact ⟨i, h.canStep_free hout (fun j => eq_false_of_ne_true fun hj => hloc ⟨j, hj⟩) hi⟩

def work (s : State ι) : Nat := ∑ i, (s.todo i).length

theorem work_step (hstep : TwoLocks.step s i = some s') : work s' < work s := by
  obtain ⟨a, rest, htodo, -, rfl⟩ := step_cases hstep
  refine Finset.sum_lt_sum (fun j _ => ?_) ⟨i, Finset.mem_univ i, ?_⟩
  · by_cases hj : j = i
    · subst hj
      simp [htodo]
    · simp [update_of_ne hj]
  · simp [htodo]

theorem exists_finish (h : Safe s) : ∃ t, Transition.ReachesBy TwoLocks.step careful s t ∧ ∀ i, t.todo i = [] := by
  induction hn : work s using Nat.strongRecOn generalizing s with
  | ind n ih =>
    by_cases hdone : ∀ i, s.todo i = []
    · exact ⟨s, .refl, hdone⟩
    · obtain ⟨i, hi⟩ := not_forall.1 hdone
      obtain ⟨j, a, rest, htodo, hpos, hcar⟩ := h.exists_canStep hi
      obtain ⟨s', hstep⟩ : ∃ s', TwoLocks.step s j = some s' := by
        unfold TwoLocks.step
        rw [htodo]
        exact ⟨_, if_pos hpos⟩
      obtain ⟨t, hrch, ht⟩ := ih (work s') (hn ▸ work_step hstep) (h.step hcar hstep) rfl
      exact ⟨t, (Transition.ReachesBy.of_step hstep hcar).trans hrch, ht⟩

end Safe

end TwoLocks
