import CloudeLoader.Lib.TwoLocks

/-!
# The locks of the configuration (`config.cc`)

`config_manager` has a recursive lock, `_mutex`, and a plain one, `_save_mutex`.  `save_to_disk` takes `_save_mutex` and
then `_mutex`.
-/

namespace CloudeLoader.Config

open TwoLocks (Action)

/-- A call, with the calls that are made while it holds `_mutex`.  `set` propagates if something has changed and it is not told
to skip it; the listeners make calls of their own. -/
inductive StoreCall
  | get
  | getAll
  | saveToDisk
  | notifyListeners (listeners : List StoreCall)
  | set (propagates : Bool) (notified : List StoreCall)
  | setAll (notified : List StoreCall)

def saveActions : List Action := [.lock, .enter, .leave, .unlock]

namespace StoreCall

mutual

def actions : StoreCall → List Action
  | get => [.enter, .leave]
  | getAll => [.enter, .leave]
  | saveToDisk => saveActions
  | notifyListeners listeners => .enter :: .leave :: actionsList listeners
  | set propagates notified => .enter :: (if propagates then actionsList notified ++ saveActions else []) ++ [.leave]
  | setAll notified => .enter :: (actionsList notified ++ saveActions) ++ [.leave]

def actionsList : List StoreCall → List Action
  | [] => []
  | c :: cs => actions c ++ actionsList cs

end

/-! ### Each call gives back what it takes -/

theorem balanced_saveActions {d rest} (h : TwoLocks.Balanced d false rest) :
    TwoLocks.Balanced d false (saveActions ++ rest) :=
  ⟨rfl, trivial, Nat.succ_pos d, rfl, h⟩

theorem balanced_inside {d acts rest} (h : TwoLocks.Balanced d false rest)
    (hacts : TwoLocks.Balanced (d + 1) false (.leave :: rest) → TwoLocks.Balanced (d + 1) false (acts ++ .leave :: rest)) :
    TwoLocks.Balanced d false ((.enter :: acts ++ [.leave]) ++ rest) := by
  rw [List.append_assoc]
  exact ⟨trivial, hacts ⟨Nat.succ_pos d, h⟩⟩

mutual

theorem balanced_actions (c : StoreCall) {d rest} (h : TwoLocks.Balanced d false rest) :
    TwoLocks.Balanced d false (c.actions ++ rest) := by
  cases c with
  | get => exact ⟨trivial, Nat.succ_pos d, h⟩
  | getAll => exact ⟨trivial, Nat.succ_pos d, h⟩
  | saveToDisk =>
    rw [actions]
    exact balanced_saveActions h
  | notifyListeners listeners =>
    rw [actions]
    exact ⟨trivial, Nat.succ_pos d, balanced_actionsList listeners h⟩
  | set propagates notified =>
    rw [actions]
    refine balanced_inside h fun hrest => ?_
    cases propagates with
    | false => exact hrest
    | true =>
      rw [if_pos rfl, List.append_assoc]
      exact balanced_actionsList notified (balanced_saveActions hrest)
  | setAll notified =>
    rw [actions]
    refine balanced_inside h fun hrest => ?_
    rw [List.append_assoc]
    exact balanced_actionsList notified (balanced_saveActions hrest)

theorem balanced_actionsList (cs : List StoreCall) {d rest} (h : TwoLocks.Balanced d false rest) :
    TwoLocks.Balanced d false (actionsList cs ++ rest) := by
  cases cs with
  | nil =>
    rw [actionsList]
    exact h
  | cons c cs =>
    rw [actionsList, List.append_assoc]
    exact balanced_actions c (balanced_actionsList cs h)

end

end StoreCall

variable {ι : Type*} [DecidableEq ι] [Fintype ι]

def callers (calls : ι → List StoreCall) : TwoLocks.State ι := TwoLocks.initial fun i => StoreCall.actionsList (calls i)

omit [DecidableEq ι] [Fintype ι] in
theorem safe_callers (calls : ι → List StoreCall) : TwoLocks.Safe (callers calls) where
  balanced i := by
    have h : TwoLocks.Balanced 0 false (StoreCall.actionsList (calls i) ++ []) :=
      StoreCall.balanced_actionsList (calls i) ⟨rfl, rfl⟩
    rwa [List.append_nil] at h
  inside _ _ hi := absurd hi (Nat.lt_irrefl 0)
  holder _ _ hi := by cases hi
  apart _ _ _ hj := by cases hj

/-- In every run of careful steps there is no deadlock, and all calls can complete.  A step is careful if a call that will save
takes `_mutex` only while no other thread holds `_save_mutex`, and a direct `save_to_disk` takes `_save_mutex` only while no
other thread holds `_mutex` and will save. -/
theorem store_not_deadlocked (calls : ι → List StoreCall) (s : TwoLocks.State ι)
    (h : Transition.ReachesBy TwoLocks.step TwoLocks.careful (callers calls) s) :
    ¬ TwoLocks.Deadlocked s ∧ ∃ t, Transition.ReachesBy TwoLocks.step TwoLocks.careful s t ∧ ∀ i, t.todo i = [] := by
  have hsafe : TwoLocks.Safe s := h.preserves (safe_callers calls) fun hs hcar hstep => hs.step hcar hstep
  exact ⟨hsafe.not_deadlocked, hsafe.exists_finish⟩

def setAndSaveCalls : Bool → List StoreCall
  | true => [.set true [.notifyListeners []]]
  | false => [.set false [], .saveToDisk]

def setThenSave : List Bool := [false, false, true, true, true, true]

/-- One thread has taken both locks inside `set`, and the other one is about to save. -/
theorem store_not_deadlocked_setAndSave :
    ∃ s, Transition.run TwoLocks.step (callers setAndSaveCalls) setThenSave = some s ∧
      Transition.along TwoLocks.step TwoLocks.careful (callers setAndSaveCalls) setThenSave = true ∧
      ¬ TwoLocks.Deadlocked s ∧ ∃ t, Transition.ReachesBy TwoLocks.step TwoLocks.careful s t ∧ ∀ i, t.todo i = [] :=
  ⟨_, rfl, rfl, store_not_deadlocked setAndSaveCalls _ ⟨setThenSave, rfl, rfl⟩⟩

theorem setAndSave_deadlocked :
    ∃ s, Transition.run TwoLocks.step (callers setAndSaveCalls) [false, false, true, true, true, false] = some s ∧
      TwoLocks.Deadlocked s ∧ ∀ i, TwoLocks.step s i = none := by
  refine ⟨_, rfl, ⟨true, false, ?_⟩, ?_⟩
  · decide +kernel
  · intro i
    cases i <;> rfl

end CloudeLoader.Config
