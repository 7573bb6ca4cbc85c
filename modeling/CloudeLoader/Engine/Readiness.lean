import CloudeLoader.Config.Password

/-!
# Waiting for the backends (`lifecycle.cc`)

Callbacks that are registered with `on_all_backends_ready` are called once as many plugins have reported as there are
enabled backends.
-/

namespace CloudeLoader.Engine

open List

open Config (isEnabled)

variable {work : List BackendTask}

/-! ### Enabled backends -/

structure InstalledPlugin where
  name : Bytes
  json : JsonValue

def InstalledPlugin.hasBackend (p : InstalledPlugin) : Except Bytes Bool := do
  if ← p.json.valueOf JsonValue.getBool (utf8 "useBackend") true then
    return (← p.json.valueOf JsonValue.getString (utf8 "backendType") []) == utf8 "lua"
  else return false

def getEnabledBackends (installed : List InstalledPlugin) (data : JsonValue) : Except Bytes (List Bytes) := do
  return (← installed.filterM fun p => if isEnabled data p.name then p.hasBackend else pure false).map (·.name)

/-! ### The dispatcher -/

inductive BackendReadyEvent where
  | loadSuccess
  | loadFailed
  deriving DecidableEq

/-- The calls of the dispatcher.  A callback is what it leads to: a list of further calls. -/
inductive BackendEvent where
  | loaded (plugin : Bytes) (event : BackendReadyEvent)
  | unloaded (plugin : Bytes) (isShuttingDown : Bool)
  | onAllBackendsReady (callback : List BackendEvent)

inductive BackendTask where
  | event (e : BackendEvent)
  | invoke (callback : List BackendEvent)
  | caught
  | setReady

/-- `backend_event_dispatcher`, the stored configuration, what is still to be done by the calls under way, and the loaded
(`true`) and unloaded events so far. -/
structure BackendEventDispatcher where
  emittedPlugins : List (Bytes × BackendReadyEvent)
  listeners : Option (List (List BackendEvent))
  missedEvents : Nat
  isReadyForCb : Bool
  data : JsonValue
  work : List BackendTask
  log : List (Bytes × Bool)

def emit (plugin : Bytes) (event : BackendReadyEvent) :
    List (Bytes × BackendReadyEvent) → List (Bytes × BackendReadyEvent)
  | [] => [(plugin, event)]
  | x :: xs => if x.1 = plugin then (plugin, event) :: xs else x :: emit plugin event xs

def unwind : List BackendTask → List BackendTask
  | [] => []
  | .caught :: work => work
  | _ :: work => unwind work

namespace BackendEventDispatcher

def start (data : JsonValue) : BackendEventDispatcher := ⟨[], none, 0, false, data, [], []⟩

variable (installed : List InstalledPlugin)

def update (s : BackendEventDispatcher) : BackendEventDispatcher :=
  match getEnabledBackends installed s.data with
  | .error _ => { s with work := unwind s.work }
  | .ok names =>
    if s.emittedPlugins.length = names.length then
      match s.listeners with
      | none => { s with missedEvents := s.missedEvents + 1 }
      | some callbacks => { s with listeners := some [], work := callbacks.map .invoke ++ .setReady :: s.work }
    else s

def handle (s : BackendEventDispatcher) : BackendEvent → BackendEventDispatcher
  | .loaded plugin event =>
    update installed { s with emittedPlugins := emit plugin event s.emittedPlugins, log := s.log ++ [(plugin, true)] }
  | .unloaded plugin isShuttingDown =>
    let s := { s with emittedPlugins := s.emittedPlugins.filter (·.1 ≠ plugin), log := s.log ++ [(plugin, false)] }
    if isShuttingDown then s else update installed s
  | .onAllBackendsReady callback => update installed { s with listeners := some (s.listeners.getD [] ++ [callback]) }

def perform (s : BackendEventDispatcher) : BackendTask → BackendEventDispatcher
  | .event e => handle installed s e
  | .invoke callback => { s with work := callback.map .event ++ .caught :: s.work }
  | .caught => s
  | .setReady => { s with isReadyForCb := true }

/-- Something happens: a call of the dispatcher from outside, which comes when the call before it has returned; the next task;
or a change of the configuration, which may come at any time. -/
inductive Label where
  | call (e : BackendEvent)
  | next
  | configure (data : JsonValue)

def step (s : BackendEventDispatcher) : Label → Option BackendEventDispatcher
  | .call e =>
    match s.work with
    | [] => some { s with work := [.event e] }
    | _ :: _ => none
  | .next =>
    match s.work with
    | [] => none
    | task :: work => some (perform installed { s with work := work } task)
  | .configure data => some { s with data := data }

/-! ### Ready means ready -/

def Reported (log : List (Bytes × Bool)) (plugin : Bytes) : Prop :=
  (log.filter (·.1 = plugin)).getLast? = some (plugin, true)

/-- If a callback is about to be invoked, every enabled backend has reported. -/
def Ready (s : BackendEventDispatcher) : Prop :=
  ∀ callback work names, s.work = .invoke callback :: work → getEnabledBackends installed s.data = .ok names →
    ∀ plugin ∈ names, Reported s.log plugin

def pending (work : List BackendTask) : Bool :=
  work.any fun
    | .invoke _ => true
    | _ => false

def enabled (data : JsonValue) (plugin : Bytes) : Bool :=
  match getEnabledBackends installed data with
  | .error _ => false
  | .ok names => names.contains plugin

/-- If the numbers agree, then the plugins that have reported are enabled backends. -/
def counted (data : JsonValue) (emitted : List (Bytes × BackendReadyEvent)) : Bool :=
  match getEnabledBackends installed data with
  | .error _ => true
  | .ok names => emitted.length != names.length || emitted.all fun x => names.contains x.1

def allEmitted (data : JsonValue) (emitted : List (Bytes × BackendReadyEvent)) : Bool :=
  match getEnabledBackends installed data with
  | .error _ => true
  | .ok names => names.all fun plugin => (emitted.map (·.1)).contains plugin

/-- `update` counts only enabled backends, and while callbacks are still to be invoked no enabled backend is unloaded and none
is enabled that has not reported. -/
def orderly (s : BackendEventDispatcher) : Label → Bool
  | .call _ => true
  | .configure data => !pending s.work || allEmitted installed data s.emittedPlugins
  | .next =>
    match s.work with
    | .event (.loaded plugin event) :: _ => counted installed s.data (emit plugin event s.emittedPlugins)
    | .event (.unloaded plugin isShuttingDown) :: work =>
      (isShuttingDown || counted installed s.data (s.emittedPlugins.filter (·.1 ≠ plugin))) &&
        (!pending work || !enabled installed s.data plugin)
    | .event (.onAllBackendsReady _) :: _ => counted installed s.data s.emittedPlugins
    | _ => true

variable {installed} {s s' : BackendEventDispatcher} {plugin : Bytes}

theorem reported_concat {log other loaded} :
    Reported (log ++ [(other, loaded)]) plugin ↔ if other = plugin then loaded = true else Reported log plugin := by
  unfold Reported
  split
  · next h => simp [h]
  · next h => simp [h]

theorem map_fst_emit (plugin : Bytes) (event : BackendReadyEvent) (emitted : List (Bytes × BackendReadyEvent)) :
    (emit plugin event emitted).map (·.1) =
      if plugin ∈ emitted.map (·.1) then emitted.map (·.1) else emitted.map (·.1) ++ [plugin] := by
  induction emitted with
  | nil => rfl
  | cons x xs ih =>
    by_cases hx : x.1 = plugin
    · simp [emit, hx]
    · simp only [emit, hx, if_false, map_cons, mem_cons, ih, (Ne.symm hx : plugin ≠ x.1), false_or]
      split <;> rfl

theorem pending_of_unwind (h : pending (unwind work) = true) : pending work = true := by
  induction work with
  | nil => exact h
  | cons task work ih =>
    rw [pending, any_cons, Bool.or_eq_true]
    right
    cases task with
    | caught => exact h
    | event e => exact ih h
    | invoke callback => exact ih h
    | setReady => exact ih h

theorem mem_of_counted {emitted : List (Bytes × BackendReadyEvent)} {names : List Bytes} (hnod : (emitted.map (·.1)).Nodup)
    (hsub : ∀ x ∈ emitted, x.1 ∈ names) (hlen : emitted.length = names.length) (hp : plugin ∈ names) :
    plugin ∈ emitted.map (·.1) := by
  have hsbs : emitted.map (·.1) ⊆ names := by
    intro q hq
    obtain ⟨x, hx, rfl⟩ := mem_map.1 hq
    exact hsub x hx
  have hperm := (subperm_of_subset hnod hsbs).perm_of_length_le (by rw [length_map, hlen])
  exact hperm.mem_iff.2 hp

/-- The list of reported plugins agrees with the events, and while callbacks are to be invoked the enabled backends are
in it. -/
structure Inv (installed : List InstalledPlugin) (s : BackendEventDispatcher) : Prop where
  nodup : (s.emittedPlugins.map (·.1)).Nodup
  reported : ∀ plugin, plugin ∈ s.emittedPlugins.map (·.1) ↔ Reported s.log plugin
  waiting : pending s.work = true → ∀ names, getEnabledBackends installed s.data = .ok names →
    ∀ plugin ∈ names, plugin ∈ s.emittedPlugins.map (·.1)

theorem Inv.start (data : JsonValue) : Inv installed (start data) :=
  ⟨.nil, by simp [BackendEventDispatcher.start, Reported], by simp [BackendEventDispatcher.start, pending]⟩

theorem Inv.update (h : Inv installed s) (hcnt : counted installed s.data s.emittedPlugins = true) :
    Inv installed (update installed s) := by
  unfold BackendEventDispatcher.update
  unfold counted at hcnt
  cases hget : getEnabledBackends installed s.data with
  | error e => exact ⟨h.nodup, h.reported, fun hp => h.waiting (pending_of_unwind hp)⟩
  | ok names =>
    simp only [hget, Bool.or_eq_true, bne_iff_ne, all_eq_true, contains_iff_mem] at hcnt ⊢
    split
    · next hlen =>
      have hsub := hcnt.resolve_left (not_not.2 hlen)
      cases s.listeners with
      | none => exact ⟨h.nodup, h.reported, h.waiting⟩
      | some callbacks =>
        refine ⟨h.nodup, h.reported, fun _ names' hget' plugin hp => ?_⟩
        obtain rfl : names = names' := Except.ok.inj (hget.symm.trans hget')
        exact mem_of_counted h.nodup hsub hlen hp
    · exact h

theorem Inv.loaded (h : Inv installed s) (event : BackendReadyEvent) :
    Inv installed { s with emittedPlugins := emit plugin event s.emittedPlugins, log := s.log ++ [(plugin, true)] } := by
  have hmem : ∀ q, q ∈ (emit plugin event s.emittedPlugins).map (·.1) ↔ plugin = q ∨ q ∈ s.emittedPlugins.map (·.1) := by
    intro q
    rw [map_fst_emit]
    split
    · next hp => exact ⟨.inr, fun hq => hq.elim (fun heq => heq ▸ hp) id⟩
    · rw [mem_append, mem_singleton, or_comm, eq_comm]
  refine ⟨?_, fun q => ?_, fun hp names hget q hq => (hmem q).2 (.inr (h.waiting hp names hget q hq))⟩
  · show ((emit plugin event s.emittedPlugins).map (·.1)).Nodup
    rw [map_fst_emit]
    split
    · exact h.nodup
    · next hp =>
      refine nodup_append.2 ⟨h.nodup, pairwise_singleton _ _, fun a ha b hb heq => hp ?_⟩
      rwa [← mem_singleton.1 hb, ← heq]
  · rw [hmem, reported_concat]
    split
    · next heq => simp [heq]
    · next hne => simp [hne, h.reported q]

theorem Inv.unloaded (h : Inv installed s) (plugin : Bytes)
    (hok : pending s.work = false ∨ enabled installed s.data plugin = false) :
    Inv installed { s with emittedPlugins := s.emittedPlugins.filter (·.1 ≠ plugin), log := s.log ++ [(plugin, false)] } := by
  have hmem : ∀ q, q ∈ (s.emittedPlugins.filter (·.1 ≠ plugin)).map (·.1) ↔ q ∈ s.emittedPlugins.map (·.1) ∧ q ≠ plugin := by
    intro q
    simp only [mem_map, mem_filter, ne_eq, decide_eq_true_eq]
    constructor
    · rintro ⟨x, ⟨hx, hne⟩, rfl⟩
      exact ⟨⟨x, hx, rfl⟩, hne⟩
    · rintro ⟨⟨x, hx, rfl⟩, hne⟩
      exact ⟨x, ⟨hx, hne⟩, rfl⟩
  refine ⟨h.nodup.sublist (filter_sublist.map _), fun q => ?_, fun hp names hget q hq => (hmem q).2 ?_⟩
  · rw [hmem, reported_concat]
    split
    · next heq => simp [heq]
    · next hne => simp [h.reported q, Ne.symm hne]
  · refine ⟨h.waiting hp names hget q hq, ?_⟩
    rintro rfl
    obtain hpen | henb := hok
    · exact absurd hp (by simp [hpen])
    · simp [enabled, hget, hq] at henb

theorem Inv.of_work (h : Inv installed s) (hwork : pending work = true → pending s.work = true) :
    Inv installed { s with work := work } :=
  ⟨h.nodup, h.reported, fun hp => h.waiting (hwork hp)⟩

theorem pending_of_tail {task} (h : pending work = true) : pending (task :: work) = true := by
  rw [pending, any_cons, Bool.or_eq_true]
  exact .inr h

theorem pending_events {events : List BackendEvent}
    (h : pending (events.map .event ++ .caught :: work) = true) : pending work = true := by
  induction events with
  | nil => exact h
  | cons e events ih => exact ih h

theorem Inv.perform {task : BackendTask} (h : Inv installed s) (hwork : s.work = task :: work)
    (hok : orderly installed s .next = true) : Inv installed (perform installed { s with work := work } task) := by
  have htail : Inv installed { s with work := work } := h.of_work fun hp => by rw [hwork]; exact pending_of_tail hp
  simp only [orderly, hwork] at hok
  cases task with
  | invoke callback =>
    refine h.of_work fun hp => ?_
    rw [hwork]
    exact pending_of_tail (pending_events hp)
  | caught => exact htail
  | setReady => exact ⟨htail.nodup, htail.reported, htail.waiting⟩
  | event e =>
    cases e with
    | loaded plugin event => exact (htail.loaded event).update hok
    | unloaded plugin isShuttingDown =>
      rw [Bool.and_eq_true, Bool.or_eq_true] at hok
      have hun := htail.unloaded plugin (by simpa using hok.2)
      cases isShuttingDown with
      | true => exact hun
      | false => exact hun.update (by simpa using hok.1)
    | onAllBackendsReady callback =>
      have hreg : Inv installed { s with work := work, listeners := some (s.listeners.getD [] ++ [callback]) } :=
        ⟨htail.nodup, htail.reported, htail.waiting⟩
      exact hreg.update hok

theorem Inv.step {label} (h : Inv installed s) (hok : orderly installed s label = true)
    (hstep : step installed s label = some s') : Inv installed s' := by
  cases label with
  | call e =>
    cases hwork : s.work with
    | nil =>
      simp only [BackendEventDispatcher.step, hwork, Option.some.injEq] at hstep
      subst hstep
      exact h.of_work fun hp => absurd hp (by simp [pending])
    | cons task work => simp [BackendEventDispatcher.step, hwork] at hstep
  | next =>
    cases hwork : s.work with
    | nil => simp [BackendEventDispatcher.step, hwork] at hstep
    | cons task work =>
      simp only [BackendEventDispatcher.step, hwork, Option.some.injEq] at hstep
      subst hstep
      exact h.perform hwork hok
  | configure data =>
    cases hstep
    refine ⟨h.nodup, h.reported, fun hp names hget plugin hmem => ?_⟩
    simp only [orderly, Bool.or_eq_true, Bool.not_eq_true', allEmitted] at hok
    obtain hpen | hall := hok
    · exact absurd hp (by simp [hpen])
    · simp only [hget, all_eq_true, contains_iff_mem] at hall
      exact hall plugin hmem

theorem Inv.ready (h : Inv installed s) : Ready installed s := by
  intro callback work names hwork hget plugin hp
  refine (h.reported plugin).1 (h.waiting ?_ names hget plugin hp)
  rw [hwork]
  rfl

/-- If `update` counts only enabled backends, and while callbacks are to be invoked no enabled backend is unloaded and no other
one enabled, then whenever a callback is invoked every enabled backend has reported. -/
theorem ready_of_reaches (installed : List InstalledPlugin) (data : JsonValue) (s : BackendEventDispatcher)
    (h : Transition.ReachesBy (step installed) (orderly installed) (start data) s) : Ready installed s :=
  (h.preserves (Inv.start data) fun ha hok hstep => ha.step hok hstep).ready

def sampleInstalled : List InstalledPlugin :=
  [⟨utf8 "a", .obj [(utf8 "backendType", .str (utf8 "lua"))]⟩, ⟨utf8 "b", .obj [(utf8 "backendType", .str (utf8 "lua"))]⟩]

def onlyEnabled (plugin : Bytes) : JsonValue :=
  .obj [(Config.pluginsKey, .obj [(Config.enabledPluginsKey, .arr [.str plugin])])]

theorem ready_one : ∃ s, Transition.run (step sampleInstalled) (start (onlyEnabled (utf8 "a")))
    [.call (.onAllBackendsReady []), .next, .call (.loaded (utf8 "a") .loadSuccess), .next] = some s ∧
      s.work = [.invoke [], .setReady] ∧ Ready sampleInstalled s :=
  ⟨_, rfl, rfl, ready_of_reaches sampleInstalled (onlyEnabled (utf8 "a")) _
    ⟨[.call (.onAllBackendsReady []), .next, .call (.loaded (utf8 "a") .loadSuccess), .next], rfl, rfl⟩⟩

/-- A plugin that has reported is disabled and another one enabled: the numbers agree, and the callback is invoked although the
backend that is enabled now has not reported. -/
theorem not_ready_swapped : ∃ s, Transition.run (step sampleInstalled) (start (onlyEnabled (utf8 "a")))
    [.call (.loaded (utf8 "a") .loadSuccess), .next, .configure (onlyEnabled (utf8 "b")), .call (.onAllBackendsReady []),
      .next] = some s ∧ s.work = [.invoke [], .setReady] ∧ ¬ Ready sampleInstalled s := by
  refine ⟨_, rfl, rfl, fun h => ?_⟩
  have := h [] [.setReady] [utf8 "b"] rfl rfl (utf8 "b") (by simp)
  revert this
  unfold Reported
  decide

end BackendEventDispatcher

end CloudeLoader.Engine
