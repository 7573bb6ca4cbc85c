import CloudeLoader.Engine.Registration
import CloudeLoader.Loopback.Isolation

/-!
# Processes and registrations (`engine/backend_mgr.cc`, `engine/plugin_loader.cc`)

A plugin's patches should be in the arena while its process is there.
-/

namespace CloudeLoader

open ByteMemory Arena Function List

structure BackendManager where
  arena : Arena
  processes : CString → Option Bool
  sent : CString → Option (List Patch)
  fault : Option NullPointer

structure Child where
  /-- The `PATCHES` messages that are handled before the answer to `INIT`, or before the child is given up. -/
  messages : List (Option (List PatchParams))
  ready : Bool

inductive PluginEvent
  | spawn (plugin : CString) (child : Child)
  /-- The turn of a plugin in the second loop of `set_plugins_enabled`; it may have no backend to spawn. -/
  | enable (plugin : CString) (child : Option Child)
  | crash (plugin : CString)
  | patches (plugin : CString) (params : Option (List PatchParams))
  /-- `destroy_plugin`; the reader thread is joined only after the patches were removed, so messages may be late. -/
  | destroy (plugin : CString) (late : List (Option (List PatchParams)))

/-- One plugin in the argument of `set_plugins_enabled`, and what comes of it. -/
structure Toggle where
  plugin : CString
  enabled : Bool
  child : Option Child
  late : List (Option (List PatchParams))

def setPluginsEnabled (toggles : List Toggle) : List PluginEvent :=
  (toggles.filter fun t => !t.enabled).map (fun t => .destroy t.plugin t.late) ++
    (toggles.filter fun t => t.enabled).map fun t => .enable t.plugin t.child

namespace BackendManager

def start (mem : Mem) : BackendManager := ⟨initArena mem, fun _ => none, fun _ => none, none⟩

def isAnyBackendRunning (b : BackendManager) (plugin : CString) : Bool := b.processes plugin == some true

def onMessage (plugin : CString) (b : BackendManager) (params : Option (List PatchParams)) : BackendManager :=
  match b.fault with
  | some _ => b
  | none =>
    { b with
      arena := (onPatches b.arena plugin params).1
      sent := update b.sent plugin (some (sentPatches params))
      fault := (onPatches b.arena plugin params).2 }

variable (b : BackendManager)

def forget (plugin : CString) : BackendManager :=
  { b with sent := update b.sent plugin none }

def spawnPlugin (plugin : CString) (child : Child) : BackendManager :=
  let b := child.messages.foldl (onMessage plugin) (b.forget plugin)
  if child.ready then { b with processes := update b.processes plugin (some true) } else b.forget plugin

def destroyPlugin (plugin : CString) (late : List (Option (List PatchParams))) : BackendManager :=
  match b.processes plugin with
  | none => b
  | some _ =>
    let b := { b with
      arena := hashmapRemove b.arena plugin
      processes := update b.processes plugin none }
    (late.foldl (onMessage plugin) b).forget plugin

def step (e : PluginEvent) : BackendManager :=
  match b.fault with
  | some _ => b
  | none =>
    match e with
    | .spawn plugin child => b.spawnPlugin plugin child
    | .enable plugin child =>
      if b.isAnyBackendRunning plugin then b
      else
        match child with
        | none => b
        | some child => b.spawnPlugin plugin child
    | .crash plugin =>
      { b with processes := update b.processes plugin ((b.processes plugin).map fun _ => false) }
    | .patches plugin params =>
      -- only a process has a reader thread
      match b.processes plugin with
      | none => b
      | some _ => onMessage plugin b params
    | .destroy plugin late => b.destroyPlugin plugin late

def run (events : List PluginEvent) : BackendManager := events.foldl step b

end BackendManager

/-- A child sends at most one message, and none if it does not come up. -/
def Child.clean (child : Child) : Bool :=
  if child.ready then decide (child.messages.length ≤ 1) else child.messages.isEmpty

namespace BackendManager

/-- No process is spawned while an earlier one is registered, every process sends at most one message, and none after its
patches were removed or if it does not come up. -/
def safe (b : BackendManager) : PluginEvent → Bool
  | .spawn plugin child => (b.processes plugin).isNone && child.clean
  | .enable plugin child =>
    b.isAnyBackendRunning plugin || child.all fun child => (b.processes plugin).isNone && child.clean
  | .crash _ => true
  | .patches plugin _ => (b.processes plugin).isNone || (b.sent plugin).isNone
  | .destroy plugin late => (b.processes plugin).isNone || late.isEmpty

def safeRun (b : BackendManager) : List PluginEvent → Bool
  | [] => true
  | e :: events => b.safe e && (b.step e).safeRun events

end BackendManager

def PluginEvent.messages : PluginEvent → List (CString × Option (List PatchParams))
  | .spawn plugin child => child.messages.map fun params => (plugin, params)
  | .enable plugin child => (child.elim [] Child.messages).map fun params => (plugin, params)
  | .crash _ => []
  | .patches plugin params => [(plugin, params)]
  | .destroy plugin late => late.map fun params => (plugin, params)

def PluginEvent.Short (e : PluginEvent) : Prop :=
  ∀ x ∈ e.messages, x.1.length < 2 ^ 31 ∧ ∀ p ∈ sentPatches x.2, p.Short

instance PluginEvent.decidableShort (e : PluginEvent) : Decidable e.Short := by
  unfold PluginEvent.Short
  infer_instance

namespace BackendManager

/-! ### The trace -/

theorem onMessage_extends (plugin : CString) (b : BackendManager) (params : Option (List PatchParams)) :
    b.arena.Extends (onMessage plugin b params).arena := by
  unfold onMessage
  split
  · exact Extends.refl _
  · exact handlePatches_extends _ _ _

theorem onMessages_extends (plugin : CString) (b : BackendManager) (messages : List (Option (List PatchParams))) :
    b.arena.Extends (messages.foldl (onMessage plugin) b).arena := by
  induction messages generalizing b with
  | nil => exact Extends.refl _
  | cons params messages ih => exact (onMessage_extends plugin b params).trans (ih _)

theorem spawnPlugin_extends (b : BackendManager) (plugin : CString) (child : Child) :
    b.arena.Extends (b.spawnPlugin plugin child).arena := by
  have h := onMessages_extends plugin (b.forget plugin) child.messages
  unfold spawnPlugin
  split
  · exact h
  · exact h

theorem step_extends (b : BackendManager) (e : PluginEvent) : b.arena.Extends (b.step e).arena := by
  unfold step
  split
  · exact Extends.refl _
  · cases e with
    | spawn plugin child => exact spawnPlugin_extends b plugin child
    | enable plugin child =>
      simp only
      split
      · exact Extends.refl _
      · cases child with
        | none => exact Extends.refl _
        | some child => exact spawnPlugin_extends b plugin child
    | crash plugin => exact Extends.refl _
    | patches plugin params =>
      simp only
      split
      · exact Extends.refl _
      · exact onMessage_extends plugin b params
    | destroy plugin late =>
      simp only [destroyPlugin]
      split
      · exact Extends.refl _
      · refine (hashmapRemove_extends plugin).trans ?_
        exact onMessages_extends plugin
          { b with arena := hashmapRemove b.arena plugin, processes := update b.processes plugin none } late

theorem run_extends (b : BackendManager) (events : List PluginEvent) : b.arena.Extends (b.run events).arena := by
  induction events generalizing b with
  | nil => exact Extends.refl _
  | cons e events ih => exact (b.step_extends e).trans (ih (b.step e))

theorem onMessages_frame (plugin : CString) (b : BackendManager) (messages : List (Option (List PatchParams))) :
    (messages.foldl (onMessage plugin) b).processes = b.processes ∧
      ∀ k, k ≠ plugin → (messages.foldl (onMessage plugin) b).sent k = b.sent k := by
  induction messages generalizing b with
  | nil => exact ⟨rfl, fun _ _ => rfl⟩
  | cons params messages ih =>
    obtain ⟨hp, hs⟩ := ih (onMessage plugin b params)
    have hone : (onMessage plugin b params).processes = b.processes ∧
        ∀ k, k ≠ plugin → (onMessage plugin b params).sent k = b.sent k := by
      unfold onMessage
      split
      · exact ⟨rfl, fun _ _ => rfl⟩
      · exact ⟨rfl, fun k hk => update_of_ne hk _ _⟩
    exact ⟨hp.trans hone.1, fun k hk => (hs k hk).trans (hone.2 k hk)⟩

/-! ### The invariant -/

structure Tracks (b : BackendManager) : Prop where
  fault : b.fault = none
  holds : ∃ st dead m, b.arena.Holds st dead m
  list : ∀ plugin, b.arena.patchesOf plugin = (b.sent plugin).getD []

structure Inv (b : BackendManager) : Prop extends Tracks b where
  gone : ∀ plugin, b.processes plugin = none → b.sent plugin = none

variable {b : BackendManager} {plugin : CString}

theorem inv_start (mem : Mem) : (start mem).Inv where
  fault := rfl
  holds := ⟨_, _, _, holds_initArena mem⟩
  list := fun plugin => (holds_initArena mem).patchesOf_eq plugin
  gone := fun _ _ => rfl

theorem Tracks.onMessage (h : b.Tracks) {params} (hsent : b.sent plugin = none)
    (hplg : plugin.length < 2 ^ 31) (hshr : ∀ p ∈ sentPatches params, p.Short)
    (hspc : ¬(onMessage plugin b params).arena.OutOfSpace) : (BackendManager.onMessage plugin b params).Tracks := by
  obtain ⟨st, dead, m, hs⟩ := h.holds
  simp only [BackendManager.onMessage, h.fault] at hspc ⊢
  have hr : ¬b.arena.refusals < (onPatches b.arena plugin params).1.refusals := by
    rw [(refusals_eq_zero _).2 hspc]
    omega
  obtain ⟨hfull, hfits⟩ := onPatches_spec hs hplg hshr
  obtain ⟨s', st', m', e, hs', -, -, hself, hoth⟩ := hfits (Nat.le_of_not_lt fun hlt => hr (hfull hlt))
  rw [e]
  refine ⟨rfl, ⟨st', dead, m', hs'⟩, fun k => ?_⟩
  show s'.patchesOf k = (update b.sent plugin (some (sentPatches params)) k).getD []
  rw [hs'.patchesOf_eq]
  by_cases hk : k = plugin
  · subst hk
    rw [hself, ← hs.patchesOf_eq, h.list, hsent, update_self]
    rfl
  · rw [hoth k hk, ← hs.patchesOf_eq, h.list, update_of_ne hk]

theorem Inv.forget_eq (h : b.Inv) (hgone : b.processes plugin = none) : b.forget plugin = b := by
  unfold forget
  rw [← h.gone plugin hgone, update_eq_self]

theorem Inv.spawnPlugin (h : b.Inv) {child} (hgone : b.processes plugin = none) (hclean : child.clean = true)
    (hshr : (PluginEvent.spawn plugin child).Short) (hspc : ¬(b.spawnPlugin plugin child).arena.OutOfSpace) :
    (b.spawnPlugin plugin child).Inv := by
  obtain ⟨messages, ready⟩ := child
  simp only [BackendManager.spawnPlugin, h.forget_eq hgone] at hspc ⊢
  cases ready with
  | false =>
    obtain rfl : messages = [] := by simpa [Child.clean] using hclean
    simp only [foldl_nil, Bool.false_eq_true, ↓reduceIte, h.forget_eq hgone]
    exact h
  | true =>
    simp only [↓reduceIte] at hspc ⊢
    have htrc : (messages.foldl (BackendManager.onMessage plugin) b).Tracks := by
      match messages, hclean with
      | [], _ => exact h.toTracks
      | [params], _ =>
        obtain ⟨hplg, hpat⟩ := hshr (plugin, params) (by simp [PluginEvent.messages])
        exact h.toTracks.onMessage (h.gone plugin hgone) hplg hpat hspc
      | _ :: _ :: _, hc => simp [Child.clean] at hc
    obtain ⟨hprc, hsent⟩ := onMessages_frame plugin b messages
    refine ⟨⟨htrc.fault, htrc.holds, htrc.list⟩, fun k hk => ?_⟩
    simp only [hprc] at hk
    by_cases hkp : k = plugin
    · rw [hkp] at hk
      simp at hk
    · rw [update_of_ne hkp] at hk
      exact (hsent k hkp).trans (h.gone k hk)

theorem Inv.destroyPlugin (h : b.Inv) {p} (hp : b.processes plugin = some p) : (b.destroyPlugin plugin []).Inv := by
  obtain ⟨st, dead, m, hs⟩ := h.holds
  obtain ⟨st', dead', hs', -, -⟩ := hs.hashmapRemove_any plugin
  simp only [BackendManager.destroyPlugin, hp, foldl_nil]
  refine ⟨⟨h.fault, ⟨st', dead', _, hs'⟩, fun k => ?_⟩, fun k hk => ?_⟩
  · show (hashmapRemove b.arena plugin).patchesOf k = (update b.sent plugin none k).getD []
    rw [hs'.patchesOf_eq]
    by_cases hkp : k = plugin
    · rw [hkp, InsertionMap.get_erase_self, update_self]
    · rw [InsertionMap.get_erase_ne hkp, ← hs.patchesOf_eq, h.list, update_of_ne hkp]
  · show update b.sent plugin none k = none
    by_cases hkp : k = plugin
    · rw [hkp, update_self]
    · rw [update_of_ne hkp]
      refine h.gone k ?_
      rw [← update_of_ne hkp none b.processes]
      exact hk

theorem Inv.crash (h : b.Inv) (plugin : CString) :
    Inv { b with processes := update b.processes plugin ((b.processes plugin).map fun _ => false) } := by
  refine ⟨⟨h.fault, h.holds, h.list⟩, fun k hk => h.gone k ?_⟩
  by_cases hkp : k = plugin
  · subst hkp
    simpa using hk
  · rw [← update_of_ne hkp ((b.processes plugin).map fun _ => false) b.processes]
    exact hk

theorem Inv.patches (h : b.Inv) {params p} (hp : b.processes plugin = some p)
    (hsent : b.sent plugin = none) (hshr : (PluginEvent.patches plugin params).Short)
    (hspc : ¬(onMessage plugin b params).arena.OutOfSpace) : (BackendManager.onMessage plugin b params).Inv := by
  obtain ⟨hplg, hpat⟩ := hshr (plugin, params) (mem_singleton.2 rfl)
  obtain ⟨hprc, hoth⟩ := onMessages_frame plugin b [params]
  refine ⟨h.toTracks.onMessage hsent hplg hpat hspc, fun k hk => ?_⟩
  have hgone : b.processes k = none := hprc ▸ hk
  have hkp : k ≠ plugin := by
    rintro rfl
    rw [hp] at hgone
    simp at hgone
  exact (hoth k hkp).trans (h.gone k hgone)

theorem Inv.step (h : b.Inv) {e} (hsafe : b.safe e = true) (hshr : e.Short)
    (hspc : ¬(b.step e).arena.OutOfSpace) : (b.step e).Inv := by
  simp only [BackendManager.step, h.fault] at hspc ⊢
  cases e with
  | spawn plugin child =>
    simp only [safe, Bool.and_eq_true, Option.isNone_iff_eq_none] at hsafe
    exact h.spawnPlugin hsafe.1 hsafe.2 hshr hspc
  | enable plugin child =>
    simp only [safe, Bool.or_eq_true] at hsafe hspc ⊢
    split
    · exact h
    · rename_i hrun
      cases child with
      | none => exact h
      | some child =>
        have hclean := hsafe.resolve_left hrun
        simp only [Option.all_some, Bool.and_eq_true, Option.isNone_iff_eq_none] at hclean
        rw [if_neg hrun] at hspc
        exact h.spawnPlugin hclean.1 hclean.2 hshr hspc
  | crash plugin => simpa only [h.fault] using h.crash plugin
  | patches plugin params =>
    simp only [safe, Bool.or_eq_true, Option.isNone_iff_eq_none] at hsafe hspc ⊢
    cases hp : b.processes plugin with
    | none => exact h
    | some p =>
      simp only [hp, reduceCtorEq, false_or] at hsafe hspc
      exact h.patches hp hsafe hshr hspc
  | destroy plugin late =>
    simp only [safe, Bool.or_eq_true, Option.isNone_iff_eq_none, List.isEmpty_iff] at hsafe
    cases hp : b.processes plugin with
    | none =>
      simp only [BackendManager.destroyPlugin, hp]
      exact h
    | some p =>
      simp only [hp, reduceCtorEq, false_or] at hsafe
      rw [hsafe]
      exact h.destroyPlugin hp

theorem Inv.run (h : b.Inv) {events} (hsafe : b.safeRun events = true) (hshr : ∀ e ∈ events, e.Short)
    (hspc : ¬(b.run events).arena.OutOfSpace) : (b.run events).Inv := by
  induction events generalizing b with
  | nil => exact h
  | cons e events ih =>
    simp only [safeRun, Bool.and_eq_true] at hsafe
    have hspc' : ¬(b.step e).arena.OutOfSpace := fun hout => hspc (hout.mono ((b.step e).run_extends events))
    have hstep := h.step hsafe.1 (hshr e (mem_cons_self)) hspc'
    exact ih hstep hsafe.2 (fun e' he' => hshr e' (mem_cons_of_mem _ he')) hspc

theorem processes_destroy (hf : b.fault = none) (plugin : CString) (late : List (Option (List PatchParams))) :
    (b.step (.destroy plugin late)).processes plugin = none := by
  simp only [step, hf, destroyPlugin]
  cases hp : b.processes plugin with
  | none => exact hp
  | some p =>
    show (late.foldl (onMessage plugin) _).processes plugin = none
    rw [(onMessages_frame plugin _ late).1]
    exact update_self ..

theorem safeRun_append (b : BackendManager) (events events' : List PluginEvent) :
    b.safeRun (events ++ events') = (b.safeRun events && (b.run events).safeRun events') := by
  induction events generalizing b with
  | nil => rfl
  | cons e events ih => simp only [cons_append, safeRun, ih, Bool.and_assoc, run, foldl_cons]

end BackendManager

/-- If no event leaves registrations of an earlier process behind and the arena is never full, then after
`destroy_plugin` the arena holds no patch of the plugin, and whenever the current process of a plugin has sent a message the
plugin's list is the one of that message. -/
theorem run_tracks (mem : Mem) (events : List PluginEvent) (hshort : ∀ e ∈ events, e.Short)
    (hsafe : (BackendManager.start mem).safeRun events = true) :
    let b := (BackendManager.start mem).run events
    ¬b.arena.OutOfSpace → b.fault = none ∧
      (∀ plugin late, events.getLast? = some (.destroy plugin late) → b.arena.patchesOf plugin = []) ∧
      ∀ plugin patches, b.sent plugin = some patches → b.arena.patchesOf plugin = patches := by
  intro b hspc
  have hinv := (BackendManager.inv_start mem).run hsafe hshort hspc
  refine ⟨hinv.fault, fun plugin late hlast => ?_, fun plugin patches hsent => ?_⟩
  · rw [hinv.list, hinv.gone plugin ?_]
    · rfl
    · obtain ⟨init, rfl⟩ := getLast?_eq_some_iff.1 hlast
      rw [BackendManager.safeRun_append, Bool.and_eq_true] at hsafe
      have hb : b = ((BackendManager.start mem).run init).step (.destroy plugin late) := foldl_append ..
      show b.processes plugin = none
      rw [hb] at hspc ⊢
      have hinit := (BackendManager.inv_start mem).run hsafe.1 (fun e he => hshort e (mem_append_left _ he))
        fun hout => hspc (hout.mono (BackendManager.step_extends _ _))
      exact BackendManager.processes_destroy hinit.fault plugin late
  · rw [hinv.list, hsent]
    rfl

def onePatch (c : UInt8) : Option (List PatchParams) := some [⟨some (.ofBytes [c]), none, none⟩]

def crashedAndDisabled : List PluginEvent :=
  [.spawn (.ofBytes [112]) ⟨[onePatch 97], true⟩, .crash (.ofBytes [112])] ++
    setPluginsEnabled [⟨.ofBytes [112], false, none, []⟩] ++
    setPluginsEnabled [⟨.ofBytes [112], true, some ⟨[onePatch 98], true⟩, []⟩]

theorem run_tracks_crashedAndDisabled :
    ((BackendManager.start fun _ => 0).run crashedAndDisabled).arena.patchesOf (.ofBytes [112]) =
      sentPatches (onePatch 98) :=
  (run_tracks (fun _ => 0) crashedAndDisabled (by decide) (by decide +kernel) (by decide +kernel)).2.2
    (.ofBytes [112]) _ (by decide +kernel)

def failedAndDisabled : List PluginEvent :=
  [.spawn (.ofBytes [112]) ⟨[onePatch 97], false⟩, .destroy (.ofBytes [112]) []]

def crashedAndEnabled : List PluginEvent :=
  [.spawn (.ofBytes [112]) ⟨[onePatch 97], true⟩, .crash (.ofBytes [112])] ++
    setPluginsEnabled [⟨.ofBytes [112], true, some ⟨[onePatch 98], true⟩, []⟩]

/-- A spawn that fails after the message leaves its patches behind, for `destroy_plugin` finds no process; and a plugin that
is enabled again after a crash has the patches of both processes. -/
theorem run_leftovers :
    let b := (BackendManager.start fun _ => 0).run failedAndDisabled
    let b' := (BackendManager.start fun _ => 0).run crashedAndEnabled
    (¬b.arena.OutOfSpace ∧ b.arena.patchesOf (.ofBytes [112]) = sentPatches (onePatch 97)) ∧
      ¬b'.arena.OutOfSpace ∧ b'.sent (.ofBytes [112]) = some (sentPatches (onePatch 98)) ∧
      b'.arena.patchesOf (.ofBytes [112]) =
        sentPatches (onePatch 97) ++ sentPatches (onePatch 98) := by
  decide +kernel

/-! ### Serving -/

theorem PatchMap.filter_items (m : PatchMap) (k : CString) :
    m.items.filter (·.name = k) = ((m.get k).getD []).map (Item.ofPatch k) := by
  obtain ⟨entries, hnod⟩ := m
  unfold PatchMap.items InsertionMap.get
  induction entries with
  | nil => rfl
  | cons e l ih =>
    rw [map_cons, nodup_cons] at hnod
    rw [flatMap_cons, filter_append, ih hnod.2, filter_map, find?_cons]
    by_cases hk : e.1 = k
    · have hnone : l.find? (fun e => e.1 = k) = none :=
        find?_eq_none.2 fun x hx hxk => hnod.1 (mem_map.2 ⟨x, hx, (of_decide_eq_true hxk).trans hk.symm⟩)
      simp [hk, hnone, Item.ofPatch, Function.comp_def]
    · simp [hk, Item.ofPatch, Function.comp_def]

/-- If a request comes to the patches, the file is served with those the present processes sent and whose pattern
matches, and else as it is. -/
def BackendManager.Serves (b : BackendManager) (re : RE2) (content out : List UInt8) : Prop :=
  ((∀ p, ¬Reaches re .plenty b.arena content p) → out = content) ∧ ∀ p, Reaches re .plenty b.arena content p →
    ∃ xs, ByName xs ∧ Item.applyAll re xs content = out ∧ ∀ plugin, (xs.filter (·.name = plugin)).Perm
      ((((b.sent plugin).getD []).map (Item.ofPatch plugin)).filter fun x => re.isMatch x.file content)

/-- After a safe run that never ran out of space, a file is served with the patches of the present processes. -/
theorem run_serves (mem : Mem) (events : List PluginEvent) (hshort : ∀ e ∈ events, e.Short)
    (hsafe : (BackendManager.start mem).safeRun events = true) (re : RE2) (path content out : List UInt8) :
    let b := (BackendManager.start mem).run events
    ¬b.arena.OutOfSpace → Outcome re b.arena path content out → b.Serves re content out := by
  intro b hspc hout
  have hinv := (BackendManager.inv_start mem).run hsafe hshort hspc
  obtain ⟨st, dead, m, hs⟩ := hinv.holds
  refine ⟨fun hr => (outcome_iff_of_not_reaches hr).1 hout, fun p hp => ?_⟩
  obtain ⟨xs, hperm, hord, happ⟩ := hp.outcome_iff.1 hout
  refine ⟨xs, hord, happ, fun plugin => ?_⟩
  rw [← hinv.list, hs.patchesOf_eq, ← m.filter_items, ← hs.items_eq, filter_comm]
  exact hperm.filter _

theorem run_serves_crashedAndDisabled :
    let b := (BackendManager.start fun _ => 0).run crashedAndDisabled
    ∃ out, Outcome literal b.arena [] [97, 98] out ∧ b.Serves literal [97, 98] out := by
  intro b
  obtain ⟨out, hout⟩ := outcome_exists literal b.arena [] [97, 98]
  exact ⟨out, hout, run_serves _ _ (by decide) (by decide +kernel) literal [] _ out (by decide +kernel) hout⟩

end CloudeLoader
