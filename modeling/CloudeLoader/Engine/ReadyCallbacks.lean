import CloudeLoader.Lib.Transition

/-!
# The callbacks for ready backends on several threads (`lifecycle.cc`)

The handlers run on any number of threads and inside of callbacks.  `listenersMutex` is held for one step, to add a
callback or to take the list, and so is the test whether all backends are ready, which may come out either way.
-/

namespace CloudeLoader.Engine.ReadyCallbacks

open Transition List Option

inductive DispatcherCall
  | backendLoaded
  | backendUnloaded
  | onAllBackendsReady

/-- Where a handler is: before the test of `update`, before the lock, or in the loop over the callbacks it took. -/
inductive HandlerPhase
  | testing
  | ready
  | invoking (callbacksCopy : List Nat)
  deriving DecidableEq

/-- The calls that a thread or a callback still makes, after the handler it is in. -/
structure Frame where
  handler : Option HandlerPhase
  calls : List DispatcherCall

/-- Callbacks are numbered as they are registered.  `due` is the number of those that were registered when a test last
found all backends ready. -/
structure Dispatcher where
  listeners : Option (List Nat)
  missedEvents : Nat
  isReadyForCb : Bool
  registered : Nat
  due : Nat
  invoked : List Nat
  threads : List (List Frame)

def Dispatcher.start : Dispatcher := ⟨none, 0, false, 0, 0, [], []⟩

/-- A test that throws leaves the handler; a callback it was called from is given up. -/
inductive HandlerStep
  | enter
  | test (outcome : Option Bool)
  | take
  | invoke (calls : List DispatcherCall)
  | done
  | leave

inductive DispatcherEvent
  | spawn (calls : List DispatcherCall)
  | thread (i : Nat) (a : HandlerStep)

namespace Dispatcher

def queued (s : Dispatcher) : List Nat := s.listeners.getD []

def register (s : Dispatcher) : DispatcherCall → Dispatcher
  | .onAllBackendsReady => { s with listeners := some (s.queued ++ [s.registered]), registered := s.registered + 1 }
  | _ => s

def setThread (s : Dispatcher) (i : Nat) (t : List Frame) : Dispatcher := { s with threads := s.threads.set i t }

def act (s : Dispatcher) (i : Nat) : List Frame → HandlerStep → Option Dispatcher
  | ⟨none, call :: calls⟩ :: fs, .enter => some ((s.register call).setThread i (⟨some .testing, calls⟩ :: fs))
  | ⟨none, []⟩ :: fs, .leave => some (s.setThread i fs)
  | ⟨some .testing, calls⟩ :: fs, .test (some true) =>
    some { s.setThread i (⟨some .ready, calls⟩ :: fs) with due := s.registered }
  | ⟨some .testing, calls⟩ :: fs, .test (some false) => some (s.setThread i (⟨none, calls⟩ :: fs))
  | ⟨some .testing, _⟩ :: fs, .test none => some (s.setThread i fs)
  | ⟨some .ready, calls⟩ :: fs, .take =>
    match s.listeners with
    | some callbacks => some { s.setThread i (⟨some (.invoking callbacks), calls⟩ :: fs) with listeners := some [] }
    | none => some { s.setThread i (⟨none, calls⟩ :: fs) with missedEvents := s.missedEvents + 1 }
  | ⟨some (.invoking (cb :: cbs)), calls⟩ :: fs, .invoke body =>
    some { s.setThread i (⟨none, body⟩ :: ⟨some (.invoking cbs), calls⟩ :: fs) with invoked := s.invoked ++ [cb] }
  | ⟨some (.invoking []), calls⟩ :: fs, .done => some { s.setThread i (⟨none, calls⟩ :: fs) with isReadyForCb := true }
  | _, _ => none

def step (s : Dispatcher) : DispatcherEvent → Option Dispatcher
  | .spawn calls => some { s with threads := s.threads ++ [[⟨none, calls⟩]] }
  | .thread i a => (s.threads[i]?).bind fun t => s.act i t a

end Dispatcher

/-! ### Where a callback is -/

def Frame.callbacks (f : Frame) : List Nat :=
  match f.handler with
  | some (.invoking cbs) => cbs
  | _ => []

/-- How often the loops of a thread still come to callback `k`. -/
def held (k : Nat) (t : List Frame) : Nat := (t.map (·.callbacks.count k)).sum

/-- How many handlers of a thread are about to take the list. -/
def takers (t : List Frame) : Nat := t.countP (·.handler == some .ready)

structure Inv (s : Dispatcher) : Prop where
  once : ∀ k, s.queued.count k + (s.threads.map (held k)).sum + s.invoked.count k = if k < s.registered then 1 else 0
  due_le : s.due ≤ s.registered
  kept : ∀ k ∈ s.queued, k < s.due → 0 < (s.threads.map takers).sum

variable {s s' : Dispatcher} {i : Nat} {t t' : List Frame}

section

variable (h : Inv s) (hi : s.threads[i]? = some t) (hset : s'.threads = s.threads.set i t') (hreg : s'.registered = s.registered)

include h hi hset hreg

/-- A step of one thread that leaves the list of callbacks as it is. -/
theorem Inv.move (hqd : s'.queued = s.queued) (htak : takers t ≤ takers t')
    (hheld : ∀ k, held k t' + s'.invoked.count k = held k t + s.invoked.count k)
    (hdue : s'.due = s.due ∨ s'.due = s.registered ∧ takers t < takers t') : Inv s' := by
  have hsum := sum_map_set (f := takers) (b := t') hi
  refine ⟨fun k => ?_, ?_, fun k hk hlt => ?_⟩
  · have hsum := sum_map_set (f := held k) (b := t') hi
    have := h.once k
    have := hheld k
    rw [hqd, hset, hreg]
    omega
  · have := h.due_le
    omega
  · rw [hset]
    rcases hdue with hdue | ⟨-, hmore⟩
    · have := h.kept k (hqd ▸ hk) (hdue ▸ hlt)
      omega
    · omega

/-- A step that takes the list, or finds none. -/
theorem Inv.take (hqd : s'.queued = []) (hdue : s'.due = s.due) (hinv : s'.invoked = s.invoked)
    (hheld : ∀ k, held k t' = held k t + s.queued.count k) : Inv s' := by
  refine ⟨fun k => ?_, by rw [hdue, hreg]; exact h.due_le, by simp [hqd]⟩
  have hsum := sum_map_set (f := held k) (b := t') hi
  have := h.once k
  have := hheld k
  rw [hqd, hset, hreg, hinv, count_nil]
  omega

end

theorem Inv.register (h : Inv s) (call : DispatcherCall) : Inv (s.register call) := by
  cases call with
  | backendLoaded | backendUnloaded => exact h
  | onAllBackendsReady =>
    refine ⟨fun k => ?_, Nat.le_succ_of_le h.due_le, fun k hk hlt => ?_⟩
    · have := h.once k
      simp only [Dispatcher.register, Dispatcher.queued, getD_some, count_append, count_singleton] at this ⊢
      by_cases hk : k = s.registered
      · simp [hk] at this ⊢
        omega
      · have hlt : k < s.registered + 1 ↔ k < s.registered := by omega
        simpa [hlt, Ne.symm hk] using this
    · rcases mem_append.1 hk with hk | hk
      · exact h.kept k hk hlt
      · have hdue := h.due_le
        have hlt : k < s.due := hlt
        rw [mem_singleton] at hk
        omega

theorem register_threads (s : Dispatcher) (call : DispatcherCall) : (s.register call).threads = s.threads := by
  cases call <;> rfl

theorem Inv.act {a} (h : Inv s) (hi : s.threads[i]? = some t) (he : s.act i t a = some s') : Inv s' := by
  unfold Dispatcher.act at he
  split at he
  · next call calls fs =>
    cases he
    refine (h.register call).move (t := ⟨none, call :: calls⟩ :: fs) ?_ rfl rfl rfl (by simp [takers]) (fun k => rfl) (.inl rfl)
    rw [register_threads, hi]
  · cases he
    exact h.move hi rfl rfl rfl (by simp [takers]) (fun k => by simp [held, Frame.callbacks]; rfl) (.inl rfl)
  · cases he
    exact h.move hi rfl rfl rfl (by simp [takers]) (fun k => rfl) (.inr ⟨rfl, by simp [takers]⟩)
  · cases he
    exact h.move hi rfl rfl rfl (by simp [takers]) (fun k => rfl) (.inl rfl)
  · cases he
    exact h.move hi rfl rfl rfl (by simp [takers]) (fun k => by simp [held, Frame.callbacks]; rfl) (.inl rfl)
  · split at he
    · next calls fs callbacks hl =>
      cases he
      exact h.take hi rfl rfl rfl rfl rfl fun k => by simp [held, Frame.callbacks, Dispatcher.queued, hl, Nat.add_comm]
    · next hl =>
      cases he
      exact h.take hi rfl rfl (by simp [Dispatcher.queued, Dispatcher.setThread, hl]) rfl rfl
        fun k => by simp [held, Frame.callbacks, Dispatcher.queued, hl]
  · next cb cbs calls fs body =>
    cases he
    refine h.move hi rfl rfl rfl (by simp [takers]) (fun k => ?_) (.inl rfl)
    simp only [held, Frame.callbacks, map_cons, sum_cons, count_nil, count_append, count_cons]
    omega
  · cases he
    exact h.move hi rfl rfl rfl (by simp [takers]) (fun k => rfl) (.inl rfl)
  · cases he

theorem Inv.step {e} (h : Inv s) (he : s.step e = some s') : Inv s' := by
  cases e with
  | spawn calls =>
    cases he
    refine ⟨fun k => ?_, h.due_le, fun k hk hlt => ?_⟩
    · simpa [held, Frame.callbacks, Dispatcher.queued] using h.once k
    · simpa [takers] using h.kept k hk hlt
  | thread i a =>
    obtain ⟨t, hi, he⟩ := bind_eq_some_iff.1 he
    exact h.act hi he

theorem start_inv : Inv .start := ⟨fun k => by simp [Dispatcher.start, Dispatcher.queued], Nat.le_refl 0, nofun⟩

def Dispatcher.Returned (s : Dispatcher) : Prop := ∀ t ∈ s.threads, ∀ f ∈ t, f.handler = none

theorem sum_eq_zero_of_returned {g : List Frame → Nat} (h : s.Returned) (hg : ∀ t, (∀ f ∈ t, f.handler = none) → g t = 0) :
    (s.threads.map g).sum = 0 := by
  rw [sum_eq_zero_iff]
  intro n hn
  obtain ⟨t, ht, rfl⟩ := mem_map.1 hn
  exact hg t (h t ht)

/-- In every run no callback is invoked twice, and when the handlers have returned those that were registered when a test
found all backends ready have been invoked. -/
theorem callbacks_once {es : List DispatcherEvent} (h : run Dispatcher.step .start es = some s) :
    (∀ k, s.invoked.count k ≤ 1) ∧ (s.Returned → ∀ k < s.due, s.invoked.count k = 1) := by
  have hinv : Inv s := run_induction (P := fun _ s => Inv s) start_inv (fun _ hs he => hs.step he) h
  refine ⟨fun k => ?_, fun hret k hk => ?_⟩
  · have := hinv.once k
    split at this <;> omega
  · have hheld : (s.threads.map (held k)).sum = 0 := by
      refine sum_eq_zero_of_returned hret fun t ht => ?_
      rw [held, sum_eq_zero_iff]
      intro n hn
      obtain ⟨f, hf, rfl⟩ := mem_map.1 hn
      simp [Frame.callbacks, ht f hf]
    have htak : (s.threads.map takers).sum = 0 :=
      sum_eq_zero_of_returned hret fun t ht => countP_eq_zero.2 fun f hf => by simp [ht f hf]
    have hqd : s.queued.count k = 0 := by
      rw [count_eq_zero]
      intro hmem
      have := hinv.kept k hmem hk
      omega
    have hlt := Nat.lt_of_lt_of_le hk hinv.due_le
    have := hinv.once k
    rw [if_pos hlt] at this
    omega

/-- A callback that registers another one while it runs. -/
def nestedRun : List DispatcherEvent :=
  [.spawn [.onAllBackendsReady], .thread 0 .enter, .thread 0 (.test (some true)), .thread 0 .take,
    .thread 0 (.invoke [.onAllBackendsReady]), .thread 0 .enter, .thread 0 (.test (some true)), .thread 0 .take,
    .thread 0 (.invoke []), .thread 0 .leave, .thread 0 .done, .thread 0 .leave, .thread 0 .done]

theorem callbacks_once_nested :
    let s : Dispatcher := ⟨some [], 0, true, 2, 2, [0, 1], [[⟨none, []⟩]]⟩
    run Dispatcher.step .start nestedRun = some s ∧ (∀ k, s.invoked.count k ≤ 1) ∧ s.Returned ∧
      ∀ k < s.due, s.invoked.count k = 1 := by
  intro s
  have h : run Dispatcher.step .start nestedRun = some s := rfl
  have hret : s.Returned := by simp [Dispatcher.Returned, s]
  exact ⟨h, (callbacks_once h).1, hret, (callbacks_once h).2 hret⟩

end CloudeLoader.Engine.ReadyCallbacks
