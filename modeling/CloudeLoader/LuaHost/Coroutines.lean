import CloudeLoader.Lib.Transition

/-!
# Coroutines that wait for a descriptor (`rpc.cc`)

A coroutine that calls `cloude.yield_readable` is kept in `m_fd_watches`, a map from descriptors, until the main loop resumes
it.
-/

namespace CloudeLoader.LuaHost

open Transition List

/-- The queue and the map of `rpc_client`, which hold bare pointers, with the coroutines that run, the innermost first.
`suspended` are the coroutines in a call of `yield_readable` with its descriptor.  `isAstray` says that one of them was resumed
other than by a report for its descriptor, or that a coroutine was collected to which the queue or the map still points. -/
structure Waiters where
  pendingCoroutines : List Nat
  fdWatches : List (Nat × Nat)
  active : List Nat
  suspended : List (Nat × Nat)
  isAstray : Bool

/-- The calls of Lua code, the garbage collector, and what the loop resumes: the next of the queue, or the waiter for a
readable descriptor.  `yieldFails` is a call of `yield_readable` for which `lua_yield` raises an error, as it does below a C
function that cannot be left, and `resume` is `coroutine.resume`. -/
inductive WaitEvent
  | startCoroutine (co : Nat)
  | yieldReadable (fd : Nat)
  | yieldFails (fd : Nat)
  | resume (co : Nat)
  | leave
  | collect (co : Nat)
  | resumePending
  | readable (fd : Nat)

namespace Waiters

def start : Waiters := ⟨[], [], [], [], false⟩

/-- `watch_fd`: the descriptor has one entry in the map. -/
def watchFd (s : Waiters) (fd co : Nat) : List (Nat × Nat) := s.fdWatches.filter (·.1 ≠ fd) ++ [(fd, co)]

def step (s : Waiters) : WaitEvent → Option Waiters
  | .startCoroutine co => some { s with pendingCoroutines := s.pendingCoroutines ++ [co] }
  | .yieldReadable fd =>
    match s.active with
    | co :: rest => some { s with
        fdWatches := s.watchFd fd co
        active := rest
        suspended := s.suspended ++ [(fd, co)] }
    | [] => none
  -- the descriptor is watched before the coroutine yields, and still is after the error
  | .yieldFails fd => s.active.head?.map fun co => { s with fdWatches := s.watchFd fd co }
  | .resume co =>
    if co ∈ s.active then none
    else some { s with
      active := co :: s.active
      suspended := s.suspended.filter (·.2 ≠ co)
      isAstray := s.isAstray || s.suspended.any (·.2 = co) }
  | .leave => if s.active = [] then none else some { s with active := s.active.tail }
  | .collect co =>
    if co ∈ s.active then none
    else some { s with
      suspended := s.suspended.filter (·.2 ≠ co)
      isAstray := s.isAstray || s.pendingCoroutines.contains co || s.fdWatches.any (·.2 = co) }
  | .resumePending =>
    match s.active, s.pendingCoroutines with
    | [], co :: rest => some { s with
        pendingCoroutines := rest
        active := [co]
        suspended := s.suspended.filter (·.2 ≠ co)
        isAstray := s.isAstray || s.suspended.any (·.2 = co) }
    | _, _ => none
  | .readable fd =>
    match s.active, s.fdWatches.find? (·.1 = fd) with
    | [], some w => some { s with
        fdWatches := s.fdWatches.filter (·.1 ≠ fd)
        active := [w.2]
        suspended := s.suspended.filter (·.2 ≠ w.2)
        isAstray := s.isAstray || !s.suspended.contains (fd, w.2) }
    | [], none => some s
    | _ :: _, _ => none

/-- Nobody else waits for the descriptor, and the coroutine can yield; one that waits is resumed neither by Lua code nor from
the queue; and none is collected that waits or is in the queue. -/
def single (s : Waiters) : WaitEvent → Bool
  | .yieldReadable fd => s.fdWatches.all (·.1 ≠ fd)
  | .yieldFails _ => false
  | .resume co => s.suspended.all (·.2 ≠ co)
  | .collect co => !s.pendingCoroutines.contains co && s.fdWatches.all (·.2 ≠ co)
  | .resumePending => s.pendingCoroutines.head?.all fun co => s.suspended.all (·.2 ≠ co)
  | _ => true

/-- The map holds what is suspended, each descriptor and each coroutine once, and no coroutine that is active. -/
structure Inv (s : Waiters) : Prop where
  watches : s.fdWatches = s.suspended
  fds : (s.suspended.map Prod.fst).Nodup
  cos : (s.active ++ s.suspended.map Prod.snd).Nodup
  isAstray : s.isAstray = false

variable {s s' : Waiters} {e : WaitEvent}

/-- The waiter for a descriptor is the only one for it, and waits for nothing else. -/
private theorem Inv.filter_eq (h : Inv s) {w} (hw : w ∈ s.suspended) :
    s.suspended.filter (·.2 ≠ w.2) = s.suspended.filter (·.1 ≠ w.1) := by
  refine filter_congr fun x hx => decide_eq_decide.2 (not_congr ⟨fun heq => ?_, fun heq => ?_⟩)
  · rw [inj_on_of_nodup_map h.cos.of_append_right hx hw heq]
  · rw [inj_on_of_nodup_map h.fds hx hw heq]

private theorem any_eq_false_of_all {co : Nat} {ws : List (Nat × Nat)} (h : ∀ w ∈ ws, decide (w.2 ≠ co) = true) :
    ws.any (·.2 = co) = false :=
  any_eq_false.2 fun w hw => by simpa using h w hw

/-- A coroutine becomes active that waits for nothing. -/
private theorem Inv.activate (h : Inv s) (co : Nat) (hact : co ∉ s.active) (hco : ∀ w ∈ s.suspended, decide (w.2 ≠ co) = true)
    (pending : List Nat) :
    Inv ⟨pending, s.fdWatches, co :: s.active, s.suspended.filter (·.2 ≠ co), s.isAstray || s.suspended.any (·.2 = co)⟩ := by
  rw [filter_eq_self.2 hco, any_eq_false_of_all hco, h.isAstray]
  refine ⟨h.watches, h.fds, nodup_cons.2 ⟨fun hmem => ?_, h.cos⟩, rfl⟩
  rcases mem_append.1 hmem with hmem | hmem
  · exact hact hmem
  · obtain ⟨w, hw, rfl⟩ := mem_map.1 hmem
    exact of_decide_eq_true (hco w hw) rfl

private theorem Inv.yield (h : Inv s) {fd co : Nat} {rest : List Nat} (hact : s.active = co :: rest)
    (hall : ∀ w ∈ s.fdWatches, decide (w.1 ≠ fd) = true) :
    Inv { s with fdWatches := s.watchFd fd co, active := rest, suspended := s.suspended ++ [(fd, co)] } := by
  have hfd : fd ∉ s.suspended.map Prod.fst := fun hmem => by
    obtain ⟨w, hw, rfl⟩ := mem_map.1 hmem
    exact of_decide_eq_true (hall w (h.watches ▸ hw)) rfl
  refine ⟨by rw [watchFd, filter_eq_self.2 hall, h.watches], ?_, ?_, h.isAstray⟩
  · simpa using h.fds.concat hfd
  · have hcos := h.cos
    rw [hact, cons_append, nodup_cons] at hcos
    simpa using hcos.2.concat hcos.1

private theorem Inv.readable (h : Inv s) {w : Nat × Nat} (hw : w ∈ s.suspended) :
    Inv ⟨s.pendingCoroutines, s.fdWatches.filter (·.1 ≠ w.1), [w.2], s.suspended.filter (·.2 ≠ w.2),
      s.isAstray || !s.suspended.contains w⟩ := by
  have hcos : (s.suspended.map Prod.snd).Nodup := h.cos.of_append_right
  rw [h.watches, ← h.filter_eq hw, contains_iff_mem.2 hw, h.isAstray]
  refine ⟨rfl, h.fds.sublist (filter_sublist.map _), ?_, rfl⟩
  refine nodup_cons.2 ⟨fun hmem => ?_, hcos.sublist (filter_sublist.map _)⟩
  obtain ⟨x, hx, heq⟩ := mem_map.1 hmem
  exact of_decide_eq_true (mem_filter.1 hx).2 heq

theorem Inv.step (h : Inv s) (hok : s.single e = true) (hs : s.step e = some s') : Inv s' := by
  cases e with
  | startCoroutine co =>
    cases hs
    exact ⟨h.watches, h.fds, h.cos, h.isAstray⟩
  | yieldReadable fd =>
    simp only [Waiters.step] at hs
    split at hs <;> cases hs
    next co rest hact => exact h.yield hact (all_eq_true.1 hok)
  | yieldFails fd => simp [single] at hok
  | resume co =>
    simp only [Waiters.step] at hs
    split at hs <;> cases hs
    next hact => exact h.activate co hact (all_eq_true.1 hok) _
  | leave =>
    simp only [Waiters.step] at hs
    split at hs <;> cases hs
    exact ⟨h.watches, h.fds, h.cos.sublist ((tail_sublist _).append_right _), h.isAstray⟩
  | collect co =>
    simp only [Waiters.step] at hs
    split at hs <;> cases hs
    simp only [single, Bool.and_eq_true, Bool.not_eq_true'] at hok
    have hall : ∀ w ∈ s.suspended, decide (w.2 ≠ co) = true := h.watches ▸ all_eq_true.1 hok.2
    rw [filter_eq_self.2 hall, hok.1, h.watches, any_eq_false_of_all hall, h.isAstray]
    exact ⟨rfl, h.fds, h.cos, rfl⟩
  | resumePending =>
    simp only [Waiters.step] at hs
    split at hs <;> cases hs
    next co rest hact hpend =>
      rw [single, hpend] at hok
      have hinv := h.activate co (by simp [hact]) (all_eq_true.1 hok) rest
      rwa [hact] at hinv
  | readable fd =>
    simp only [Waiters.step] at hs
    split at hs <;> cases hs
    · next w hact hfind =>
      obtain rfl : w.1 = fd := by simpa using find?_some hfind
      exact h.readable (h.watches ▸ mem_of_find?_eq_some hfind)
    · exact h

/-- If nobody waits for a descriptor that another coroutine waits for, each call of `yield_readable` yields, no coroutine that
waits is resumed by Lua code or from the queue, and none is collected that waits or is in the queue, then in every run the
coroutines in the map are those that are suspended, a report for a descriptor ends the suspension of the one that waits for it
and of no other, and nothing else ends one. -/
theorem waiters_resumed {es : List WaitEvent} (h : run step start es = some s) (hok : along step single start es = true) :
    s.fdWatches = s.suspended ∧ s.isAstray = false ∧
      ∀ {fd s'}, s.step (.readable fd) = some s' → s'.suspended = s.suspended.filter (·.1 ≠ fd) := by
  have hinv : Inv s := ReachesBy.preserves ⟨es, h, hok⟩ ⟨rfl, .nil, .nil, rfl⟩ fun hs hok he => hs.step hok he
  refine ⟨hinv.watches, hinv.isAstray, fun {fd s'} hs => ?_⟩
  simp only [step] at hs
  split at hs <;> cases hs
  · next w hact hfind =>
    obtain rfl : w.1 = fd := by simpa using find?_some hfind
    exact hinv.filter_eq (hinv.watches ▸ mem_of_find?_eq_some hfind)
  · next hfind =>
    rw [hinv.watches] at hfind
    exact (filter_eq_self.2 fun w hw => by simpa using find?_eq_none.1 hfind w hw).symm

theorem waiters_resumed_two :
    run step start [.startCoroutine 1, .startCoroutine 2, .resumePending, .yieldReadable 3, .resumePending, .yieldReadable 4,
        .readable 3, .yieldReadable 5] = some ⟨[], [(4, 2), (5, 1)], [], [(4, 2), (5, 1)], false⟩ ∧
      ∀ {s'}, step ⟨[], [(4, 2), (5, 1)], [], [(4, 2), (5, 1)], false⟩ (.readable 5) = some s' → s'.suspended = [(4, 2)] :=
  ⟨rfl, fun hs => (@waiters_resumed _ [.startCoroutine 1, .startCoroutine 2, .resumePending, .yieldReadable 3,
    .resumePending, .yieldReadable 4, .readable 3, .yieldReadable 5] rfl (by decide)).2.2 hs⟩

theorem overwritten_waiter : ∃ s, run step start [.startCoroutine 1, .startCoroutine 2, .resumePending, .yieldReadable 3,
    .resumePending, .yieldReadable 3] = some s ∧ (3, 1) ∈ s.suspended ∧ (3, 1) ∉ s.fdWatches :=
  ⟨_, rfl, by decide, by decide⟩

end Waiters

end CloudeLoader.LuaHost
