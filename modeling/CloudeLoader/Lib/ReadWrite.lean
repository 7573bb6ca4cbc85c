import CloudeLoader.Lib.Transition

/-!
# Operations that read and then write

An operation reads a store, decides what to write, and writes later, in a second step.  Between the two the steps of other
operations can change the store.
-/

/-- What an operation decides to write, if anything, and how it is written. -/
structure ReadWrite (σ α : Type*) where
  plan : σ → Option α
  write : α → σ → σ

namespace ReadWrite

open Function

variable {σ α ι : Type*}

def apply (op : ReadWrite σ α) (s : σ) : σ :=
  match op.plan s with
  | none => s
  | some a => op.write a s

def serial (ops : ι → ReadWrite σ α) (s : σ) (order : List ι) : σ := order.foldl (fun s i => (ops i).apply s) s

inductive Phase (α : Type*)
  | waiting
  | planned (a : α)
  | done

structure State (ι σ α : Type*) where
  store : σ
  phase : ι → Phase α

def initial (s : σ) : State ι σ α := ⟨s, fun _ => .waiting⟩

inductive Event (ι : Type*)
  | read (i : ι)
  | write (i : ι)

variable [DecidableEq ι]

def step (ops : ι → ReadWrite σ α) (t : State ι σ α) : Event ι → Option (State ι σ α)
  | .read i =>
    match t.phase i with
    | .waiting =>
      match (ops i).plan t.store with
      | none => some { t with phase := update t.phase i .done }
      | some a => some { t with phase := update t.phase i (.planned a) }
    | _ => none
  | .write i =>
    match t.phase i with
    | .planned a => some ⟨(ops i).write a t.store, update t.phase i .done⟩
    | _ => none

/-- The operation has read and is still to write. -/
def Phase.isPlanned : Phase α → Bool
  | .planned _ => true
  | _ => false

/-- What is written disturbs no operation that has read and is still to write. -/
def undisturbed [Fintype ι] (disturbs : ι → ι → σ → Bool) (t : State ι σ α) : Event ι → Bool
  | .read _ => true
  | .write j => decide (∀ i, i ≠ j → (t.phase i).isPlanned = true → disturbs j i t.store = false)

variable {ops : ι → ReadWrite σ α} {s : σ} {t t' : State ι σ α} {e : Event ι}

theorem step_cases (h : step ops t e = some t') :
    ∃ i, (∃ a, e = .read i ∧ t.phase i = .waiting ∧ (ops i).plan t.store = some a ∧
        t' = { t with phase := update t.phase i (.planned a) }) ∨
      (e = .read i ∧ t.phase i = .waiting ∧ (ops i).plan t.store = none ∧
        t' = { t with phase := update t.phase i .done }) ∨
      ∃ a, e = .write i ∧ t.phase i = .planned a ∧ t' = ⟨(ops i).write a t.store, update t.phase i .done⟩ := by
  cases e with
  | read i =>
    refine ⟨i, ?_⟩
    simp only [step] at h
    split at h
    · next hw =>
      split at h
      · next hplan => exact .inr (.inl ⟨rfl, hw, hplan, (Option.some.inj h).symm⟩)
      · next a hplan => exact .inl ⟨a, rfl, hw, hplan, (Option.some.inj h).symm⟩
    · cases h
  | write i =>
    refine ⟨i, ?_⟩
    simp only [step] at h
    split at h
    · next a hp => exact .inr (.inr ⟨a, rfl, hp, (Option.some.inj h).symm⟩)
    · cases h

/-- The store is what the operations that have ended leave, one after another. -/
def Serial (ops : ι → ReadWrite σ α) (s : σ) (t : State ι σ α) : Prop :=
  ∃ order : List ι, order.Nodup ∧ (∀ i, i ∈ order ↔ t.phase i = .done) ∧ t.store = serial ops s order

omit [DecidableEq ι] in
theorem serial_concat (order : List ι) (i : ι) :
    serial ops s (order ++ [i]) = (ops i).apply (serial ops s order) := by
  simp [serial, List.foldl_append]

theorem serial_done {i : ι} {store : σ} (h : Serial ops s t) (hi : t.phase i ≠ .done) (hstr : store = (ops i).apply t.store) :
    Serial ops s ⟨store, update t.phase i .done⟩ := by
  obtain ⟨order, hnod, hmem, hs⟩ := h
  have hnew : i ∉ order := fun hin => hi ((hmem i).1 hin)
  refine ⟨order ++ [i], ?_, ?_, ?_⟩
  · exact List.nodup_append.2 ⟨hnod, by simp, fun a ha b hb => by
      rw [List.mem_singleton.1 hb]
      exact ne_of_mem_of_not_mem ha hnew⟩
  · intro j
    show _ ↔ update t.phase i .done j = .done
    rw [List.mem_append]
    by_cases hj : j = i
    · subst hj
      simp
    · rw [update_of_ne hj, hmem j]
      simp [hj]
  · rw [serial_concat, ← hs]
    exact hstr

/-- The operations that have read would still decide as they did. -/
def Current (ops : ι → ReadWrite σ α) (t : State ι σ α) : Prop := ∀ i a, t.phase i = .planned a → (ops i).plan t.store = some a

theorem serial_step (hs : Serial ops s t) (hcur : Current ops t) (h : step ops t e = some t') : Serial ops s t' := by
  obtain ⟨i, ⟨a, rfl, hphase, hplan, rfl⟩ | ⟨rfl, hphase, hplan, rfl⟩ | ⟨a, rfl, hphase, rfl⟩⟩ := step_cases h
  · obtain ⟨order, hnod, hmem, hstr⟩ := hs
    refine ⟨order, hnod, ?_, hstr⟩
    intro j
    show _ ↔ update t.phase i (.planned a) j = .done
    by_cases hj : j = i
    · subst hj
      simp [hmem j, hphase]
    · rw [update_of_ne hj, hmem j]
  · refine serial_done hs (by simp [hphase]) ?_
    rw [apply, hplan]
  · refine serial_done hs (by simp [hphase]) ?_
    rw [apply, hcur i a hphase]

/-- What an operation writes leaves the decision of every operation it does not disturb. -/
def Framed (ops : ι → ReadWrite σ α) (disturbs : ι → ι → σ → Bool) : Prop :=
  ∀ {i j : ι} {s : σ} {a b : α}, i ≠ j → disturbs j i s = false → (ops j).plan s = some a → (ops i).plan s = some b →
    (ops i).plan ((ops j).write a s) = some b

theorem current_step [Fintype ι] {disturbs : ι → ι → σ → Bool} (hframe : Framed ops disturbs) (hcur : Current ops t)
    (hok : undisturbed disturbs t e = true) (h : step ops t e = some t') : Current ops t' := by
  have hupd : ∀ {i j : ι} {p : Phase α} {b : α}, update t.phase i p j = .planned b → j = i ∧ p = .planned b ∨
      j ≠ i ∧ t.phase j = .planned b := by
    intro i j p b hj
    by_cases hji : j = i
    · subst hji
      exact .inl ⟨rfl, by rwa [update_self] at hj⟩
    · exact .inr ⟨hji, by rwa [update_of_ne hji] at hj⟩
  obtain ⟨i, ⟨a, rfl, hphase, hplan, rfl⟩ | ⟨rfl, hphase, hplan, rfl⟩ | ⟨a, rfl, hphase, rfl⟩⟩ := step_cases h
  · intro j b hj
    obtain ⟨rfl, hb⟩ | ⟨-, hold⟩ := hupd hj
    · cases hb
      exact hplan
    · exact hcur j b hold
  · intro j b hj
    obtain ⟨-, hb⟩ | ⟨-, hold⟩ := hupd hj
    · cases hb
    · exact hcur j b hold
  · intro j b hj
    obtain ⟨-, hb⟩ | ⟨hji, hold⟩ := hupd hj
    · cases hb
    · have hquiet := of_decide_eq_true hok j hji (by rw [hold]; rfl)
      exact hframe hji hquiet (hcur i a hphase) (hcur j b hold)

/-- When no write disturbs an operation that has read, the operations take effect one after another. -/
theorem serial_of_reaches [Fintype ι] {disturbs : ι → ι → σ → Bool} (hframe : Framed ops disturbs)
    (h : Transition.ReachesBy (step ops) (undisturbed disturbs) (initial s) t) : Serial ops s t := by
  have hinv : Serial ops s t ∧ Current ops t := by
    refine h.preserves (P := fun t => Serial ops s t ∧ Current ops t) ?_ ?_
    · exact ⟨⟨[], List.nodup_nil, by simp [initial], rfl⟩, by simp [Current, initial]⟩
    · rintro t e t' ⟨hs, hcur⟩ hok hstep
      exact ⟨serial_step hs hcur hstep, current_step hframe hcur hok hstep⟩
  exact hinv.1

end ReadWrite
