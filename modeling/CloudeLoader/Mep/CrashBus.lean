import CloudeLoader.Engine.Encoding
import CloudeLoader.Lib.Transition

/-!
# Crash notifications (`crash_event_bus.cc`)

A crash that is notified while there is no listener is kept for the next one, to which it is replayed after the lock was
released.  The numbers of the listeners are the values of an `atomic<int>`, which come again after `2 ^ 32` calls.
-/

namespace CloudeLoader.Mep

open Engine Transition List

structure CrashEvent where
  pluginName : Bytes
  exitCode : Nat
  crashDumpDir : Bytes
  displayName : Bytes
  deriving DecidableEq

/-- A call of `add_listener`: whether `m_listeners` holds it, whether it was not removed, what was delivered to it and what is
still to be replayed.  `due` are the crashes that were not acknowledged when it was registered and those that were notified
since. -/
structure BusListener where
  isHeld : Bool
  registered : Bool
  received : List CrashEvent
  toReplay : List CrashEvent
  due : List CrashEvent
  deriving DecidableEq

structure CrashEventBus where
  crashBuffer : List CrashEvent
  pending : List CrashEvent
  listeners : List BusListener

/-- What happens under the lock, and the replay of one crash. -/
inductive BusEvent
  | notify (ev : CrashEvent)
  | addListener
  | replay (id : Nat)
  | removeListener (id : Nat)
  | acknowledgeCrash (pluginName : Bytes)

def BusListener.deliver (ev : CrashEvent) (l : BusListener) : BusListener :=
  { l with
    received := if l.isHeld then l.received ++ [ev] else l.received
    due := if l.registered then l.due ++ [ev] else l.due }

/-- A listener is held until it is removed, and what was delivered to it or is to be replayed is what is due. -/
structure BusListener.Served (l : BusListener) : Prop where
  isHeld : l.isHeld = l.registered
  received : l.received ++ l.toReplay = l.due

/-- What becomes of the listeners that have the number of the `id`-th one. -/
def modifyNumbered (id : Nat) (f : BusListener → BusListener) (listeners : List BusListener) : List BusListener :=
  listeners.mapIdx fun i l => if i % 2 ^ 32 = id % 2 ^ 32 then f l else l

namespace CrashEventBus

def start : CrashEventBus := ⟨[], [], []⟩

def step (s : CrashEventBus) : BusEvent → Option CrashEventBus
  | .notify ev => some {
      crashBuffer := s.crashBuffer ++ [ev]
      pending := if s.listeners.any (·.isHeld) then s.pending else s.pending ++ [ev]
      listeners := s.listeners.map (·.deliver ev) }
  | .addListener => some { s with
      pending := []
      -- `m_listeners[id] = fn` replaces a listener that has the same number
      listeners := modifyNumbered s.listeners.length ({ · with isHeld := false }) s.listeners ++
        [⟨true, true, [], s.pending, s.crashBuffer⟩] }
  | .replay id =>
    match s.listeners[id]? with
    | some ⟨isHeld, registered, received, ev :: toReplay, due⟩ =>
      some { s with listeners := s.listeners.set id ⟨isHeld, registered, received ++ [ev], toReplay, due⟩ }
    | _ => none
  | .removeListener id =>
    some { s with listeners := modifyNumbered id ({ · with isHeld := false, registered := false }) s.listeners }
  | .acknowledgeCrash pluginName => some { s with crashBuffer := s.crashBuffer.filter (·.pluginName ≠ pluginName) }

/-- A listener is registered only while the crashes kept for it are the ones that are not acknowledged and its number is new,
and nothing is notified during a replay. -/
def calm (s : CrashEventBus) : BusEvent → Bool
  | .notify _ => s.listeners.all (·.toReplay.isEmpty)
  | .addListener => s.pending = s.crashBuffer ∧ s.listeners.length < 2 ^ 32
  | _ => true

variable {s s' : CrashEventBus} {e : BusEvent} {es : List BusEvent}

theorem modifyNumbered_new {f : BusListener → BusListener} {ls : List BusListener} (h : ls.length < 2 ^ 32) :
    modifyNumbered ls.length f ls = ls := by
  refine mapIdx_eq_iff.2 fun i => ?_
  cases hi : ls[i]? with
  | none => rfl
  | some l =>
    have hlt := lt_of_getElem? hi
    rw [Option.map_some, if_neg (by omega)]

theorem step_served (h : ∀ l ∈ s.listeners, l.Served) (hcalm : s.calm e = true) (hs : s.step e = some s') :
    ∀ l ∈ s'.listeners, l.Served := by
  cases e with
  | notify ev =>
    cases hs
    intro l hl
    obtain ⟨l, hmem, rfl⟩ := mem_map.1 hl
    have hnil := isEmpty_iff.1 (all_eq_true.1 hcalm l hmem)
    obtain ⟨hheld, hrec⟩ := h l hmem
    refine ⟨hheld, ?_⟩
    rw [hnil, append_nil] at hrec
    simp only [BusListener.deliver, hnil, append_nil, hheld, hrec]
  | addListener =>
    cases hs
    obtain ⟨hpending, hlen⟩ := of_decide_eq_true hcalm
    intro l hl
    rw [modifyNumbered_new hlen] at hl
    rcases mem_append.1 hl with hl | hl
    · exact h l hl
    · rw [mem_singleton.1 hl]
      exact ⟨rfl, hpending⟩
  | replay id =>
    simp only [step] at hs
    split at hs <;> cases hs
    next hid =>
    intro l hl
    rcases mem_or_eq_of_mem_set hl with hl | rfl
    · exact h l hl
    · obtain ⟨hheld, hrec⟩ := h _ (mem_of_getElem? hid)
      exact ⟨hheld, (append_assoc ..).trans hrec⟩
  | removeListener id =>
    cases hs
    intro l hl
    obtain ⟨i, hi, rfl⟩ := mem_mapIdx.1 hl
    have hi := h _ (getElem_mem hi)
    split
    · exact ⟨rfl, hi.received⟩
    · exact hi
  | acknowledgeCrash pluginName =>
    cases hs
    exact h

end CrashEventBus

/-! ### What is pending -/

def BusEvent.acknowledges (pluginName : Bytes) : BusEvent → Bool
  | .acknowledgeCrash name => name = pluginName
  | _ => false

/-- The notified crashes of plugins that were not acknowledged since. -/
def unacknowledged : List BusEvent → List CrashEvent
  | [] => []
  | .notify ev :: es => (if es.any (·.acknowledges ev.pluginName) then [] else [ev]) ++ unacknowledged es
  | _ :: es => unacknowledged es

theorem unacknowledged_append (es fs : List BusEvent) : unacknowledged (es ++ fs) =
    (unacknowledged es).filter (fun ev => !fs.any (·.acknowledges ev.pluginName)) ++ unacknowledged fs := by
  induction es with
  | nil => rfl
  | cons e es ih =>
    cases e with
    | notify ev =>
      rw [cons_append, unacknowledged, unacknowledged, ih, any_append, filter_append]
      cases es.any (·.acknowledges ev.pluginName) <;> cases hfs : fs.any (·.acknowledges ev.pluginName) <;> simp [hfs]
    | _ => exact ih

namespace CrashEventBus

theorem step_crashBuffer {s s' : CrashEventBus} {e : BusEvent} {es : List BusEvent}
    (h : s.crashBuffer = unacknowledged es) (hs : s.step e = some s') : s'.crashBuffer = unacknowledged (es ++ [e]) := by
  rw [unacknowledged_append, ← h]
  cases e with
  | acknowledgeCrash pluginName =>
    cases hs
    simp [unacknowledged, BusEvent.acknowledges, eq_comm]
  | replay id =>
    simp only [step] at hs
    split at hs <;> cases hs
    simp [unacknowledged, BusEvent.acknowledges]
  | _ =>
    cases hs
    simp [unacknowledged, BusEvent.acknowledges]

/-- In every run `get_pending_crashes` returns the crashes that are not acknowledged; and if all steps are calm, a listener has
received what is due when the replay is over. -/
theorem listeners_receive {s : CrashEventBus} {es : List BusEvent} (h : run step start es = some s) :
    s.crashBuffer = unacknowledged es ∧
      (along step calm start es = true → ∀ l ∈ s.listeners, l.toReplay = [] → l.received = l.due) := by
  refine ⟨run_induction (P := fun es s => s.crashBuffer = unacknowledged es) rfl (fun _ hs he => step_crashBuffer hs he) h,
    fun hcalm l hl hnil => ?_⟩
  have hall := ReachesBy.preserves (P := fun s => ∀ l ∈ s.listeners, l.Served) ⟨es, h, hcalm⟩
    (by simp [start]) (fun hs hok he => step_served hs hok he)
  rw [← (hall l hl).received, hnil, append_nil]

def crashOf (pluginName : String) : CrashEvent := ⟨utf8 pluginName, 1, [], []⟩

theorem listeners_receive_later :
    let es : List BusEvent := [.notify (crashOf "a"), .addListener, .replay 0, .notify (crashOf "b")]
    let s : CrashEventBus := ⟨[crashOf "a", crashOf "b"], [],
      [⟨true, true, [crashOf "a", crashOf "b"], [], [crashOf "a", crashOf "b"]⟩]⟩
    run step start es = some s ∧ along step calm start es = true ∧
      s.crashBuffer = unacknowledged es ∧ ∀ l ∈ s.listeners, l.toReplay = [] → l.received = l.due := by
  intro es s
  have h : run step start es = some s := rfl
  have hcalm : along step calm start es = true := by decide
  exact ⟨h, hcalm, (listeners_receive h).1, (listeners_receive h).2 hcalm⟩

theorem second_listener_misses :
    ∃ s, run step start [.notify (crashOf "a"), .addListener, .replay 0, .addListener] = some s ∧
      ∃ l ∈ s.listeners, l.toReplay = [] ∧ l.received ≠ l.due :=
  ⟨_, rfl, ⟨true, true, [], [], [crashOf "a"]⟩, by decide, rfl, by decide⟩

end CrashEventBus

end CloudeLoader.Mep
