import CloudeLoader.Ffi.Binder

/-!
# Contexts and sessions

The number of a context is unique in its session only.  `Registry` says which plugin has registered a context of a
session, from the events alone; the binder keeps the number without the session.
-/

namespace CloudeLoader.Ffi

open Function

open Engine (Bytes utf8)

/-- The plugin of each context that is registered, and the session of the last context that was registered under a number. -/
structure Registry where
  plugin : Bytes → Int → Option Bytes
  session : Int → Option Bytes

namespace Registry

def empty : Registry := ⟨fun _ _ => none, fun _ => none⟩

def set (r : Registry) (session : Bytes) (contextId : Int) (plugin : Option Bytes) : Registry :=
  { r with plugin := update r.plugin session (update (r.plugin session) contextId plugin) }

def note (r : Registry) : BinderEvent → Registry
  | .registerIsolatedCtx plugin contextId session =>
    { r.set session contextId (some plugin) with session := update r.session contextId (some session) }
  | .contextDestroyed session contextId => r.set session contextId none
  | _ => r

def ofEvents (es : List BinderEvent) : Registry := es.foldl note empty

/-- No context of another session is registered under the number. -/
def Unique (r : Registry) (session : Bytes) (contextId : Int) : Prop :=
  ∀ other, other ≠ session → r.plugin other contextId = none

theorem plugin_set (r : Registry) (session other : Bytes) (contextId i : Int) (plugin : Option Bytes) :
    (r.set session contextId plugin).plugin other i =
      if other = session ∧ i = contextId then plugin else r.plugin other i := by
  unfold set
  by_cases hs : other = session
  · subst hs
    by_cases hi : i = contextId
    · subst hi
      simp
    · simp [hi]
  · simp [hs]

end Registry

/-- A result that is relayed: the context it comes from, and what is relayed. -/
structure Relayed where
  session : Bytes
  contextId : Int
  callbackId : Int
  outcome : Outcome

def relayed (env : BinderEnv) (call : BindingCall) : Option Relayed :=
  match call.payload, call.sessionId, call.contextId with
  | some text, some session, some contextId =>
    if call.name = cdpProxyBindingName then
      match Binder.readProxy env text with
      | .relay callbackId outcome => some ⟨session, contextId, callbackId, outcome⟩
      | _ => none
    else none
  | _, _, _ => none

namespace Binder

/-- The main context of the plugin is known, and the script is evaluated there and nowhere else. -/
def DeliveredTo (s : Binder) (plugin : Bytes) (script : Script) (commands : List Command) : Prop :=
  ∃ ctx, s.pluginCtxs plugin = some ctx ∧ ctx.mainCtxId ≠ -1 ∧
    commands = [.evaluate ctx.mainSessionId ctx.mainCtxId script]

/-- What an event has to do: a result goes to the plugin that has registered the context it comes from, and to no other; and
when a context is destroyed, only what refers to a context of its session changes. -/
def RoutesCorrectly (env : BinderEnv) (s : Binder) (r : Registry) : BinderEvent → Prop
  | .bindingCalled call d d' => ∀ x ∈ relayed env call,
    match r.plugin x.session x.contextId with
    | none => (s.bindingCalled env call d d').2 = []
    | some plugin => s.DeliveredTo plugin (.settle x.callbackId x.outcome) (s.bindingCalled env call d d').2
  | .contextDestroyed session contextId =>
    (∀ plugin, (s.contextDestroyed contextId).pluginCtxs plugin ≠ s.pluginCtxs plugin →
      ∃ ctx, s.pluginCtxs plugin = some ctx ∧ ctx.mainSessionId = session) ∧
    (∀ i, (s.contextDestroyed contextId).ctxToPlugin i ≠ s.ctxToPlugin i → r.session i = some session) ∧
    (s.contextDestroyed contextId).eventSubs = s.eventSubs
  | _ => True

/-- The condition on an event.  When a result is relayed or a context destroyed, the number is not registered in another
session; the plugin that gets the result has a main context, and the context that is destroyed is not taken for a main context
of another session. -/
def Unambiguous (env : BinderEnv) (s : Binder) (r : Registry) : BinderEvent → Prop
  | .bindingCalled call _ _ => ∀ x ∈ relayed env call, r.Unique x.session x.contextId ∧
    ∀ plugin, r.plugin x.session x.contextId = some plugin → ∃ ctx, s.pluginCtxs plugin = some ctx ∧ ctx.mainCtxId ≠ -1
  | .contextDestroyed session contextId => r.Unique session contextId ∧
    ∀ plugin ctx, s.pluginCtxs plugin = some ctx → ctx.mainCtxId = contextId → ctx.mainSessionId = session
  | _ => True

/-- The binder finds a plugin under a number if and only if a context is registered under it, and then one of the last
session. -/
structure Routed (s : Binder) (r : Registry) : Prop where
  entry : ∀ i plugin, s.ctxToPlugin i = some plugin → ∃ session, r.session i = some session ∧ r.plugin session i = some plugin
  found : ∀ session i, r.plugin session i ≠ none → s.ctxToPlugin i ≠ none

variable {env : BinderEnv} {s : Binder} {r : Registry}

theorem Routed.ctxToPlugin_eq (h : Routed s r) {session i} (hunq : r.Unique session i) :
    s.ctxToPlugin i = r.plugin session i := by
  cases hi : s.ctxToPlugin i with
  | none =>
    by_contra hne
    exact h.found session i (Ne.symm hne) hi
  | some plugin =>
    obtain ⟨other, -, hplg⟩ := h.entry i plugin hi
    by_cases hs : other = session
    · rw [← hs, hplg]
    · rw [hunq other hs] at hplg
      cases hplg

/-! ### Runs -/

theorem ctxToPlugin_bindingCalled (call : BindingCall) (d d' : Delivery) :
    (s.bindingCalled env call d d').1.ctxToPlugin = s.ctxToPlugin := by
  have hext : ∀ text session contextId, (s.extensionRoute env text session contextId).1.ctxToPlugin = s.ctxToPlugin := by
    intro text session contextId
    unfold extensionRoute
    split
    · rfl
    · split
      · rfl
      · split <;> rfl
  have hprx : ∀ session contextId action, (s.proxy session contextId action).1.ctxToPlugin = s.ctxToPlugin := by
    intro session contextId action
    cases action with
    | cdpCall plugin callbackId method params target =>
      simp only [proxy, cdpProxyCall]
      split <;> rfl
    | _ => rfl
  unfold bindingCalled
  split
  · split
    · exact hext _ _ _
    · split
      · exact hprx _ _ _
      · split
        · rfl
        · split <;> rfl
  · rfl

theorem Routed.handle (h : Routed s r) {e} (he : s.Unambiguous env r e) : Routed (s.handle env e).1 (r.note e) := by
  cases e with
  | bindingCalled call d d' =>
    have hsame : (s.handle env (.bindingCalled call d d')).1.ctxToPlugin = s.ctxToPlugin := ctxToPlugin_bindingCalled call d d'
    exact ⟨fun i plugin hi => h.entry i plugin (hsame ▸ hi), fun session i hi => hsame ▸ h.found session i hi⟩
  | answered k outcome =>
    have hsame : (s.handle env (.answered k outcome)).1.ctxToPlugin = s.ctxToPlugin := by
      simp only [Binder.handle]
      split <;> rfl
    exact ⟨fun i plugin hi => h.entry i plugin (hsame ▸ hi), fun session i hi => hsame ▸ h.found session i hi⟩
  | registerIsolatedCtx plugin contextId session =>
    constructor
    · intro i p hi
      simp only [Binder.handle, registerIsolatedCtx] at hi
      simp only [Registry.note, Registry.plugin_set]
      by_cases hc : i = contextId
      · subst hc
        exact ⟨session, by simp, by simpa using hi⟩
      · rw [update_of_ne hc] at hi
        obtain ⟨other, hoth, hp⟩ := h.entry i p hi
        exact ⟨other, by rw [update_of_ne hc]; exact hoth, by simpa [hc] using hp⟩
    · intro other i hi
      simp only [Binder.handle, registerIsolatedCtx]
      simp only [Registry.note, Registry.plugin_set] at hi
      by_cases hc : i = contextId
      · simp [hc]
      · rw [update_of_ne hc]
        exact h.found other i (by simpa [hc] using hi)
  | contextDestroyed session contextId =>
    obtain ⟨hunq, -⟩ := he
    constructor
    · intro i p hi
      simp only [Binder.handle, contextDestroyed] at hi
      simp only [Registry.note, Registry.plugin_set]
      by_cases hc : i = contextId
      · subst hc
        rw [update_self] at hi
        cases hi
      · rw [update_of_ne hc] at hi
        obtain ⟨other, hoth, hp⟩ := h.entry i p hi
        exact ⟨other, hoth, by simpa [hc] using hp⟩
    · intro other i hi
      simp only [Binder.handle, contextDestroyed]
      simp only [Registry.note, Registry.plugin_set] at hi
      by_cases hc : i = contextId
      · subst hc
        by_cases hs : other = session
        · simp [hs] at hi
        · simp [hs, hunq other hs] at hi
      · rw [update_of_ne hc]
        exact h.found other i (by simpa [hc] using hi)
  | _ => exact ⟨h.entry, h.found⟩

theorem bindingCalled_relayed {call x} (h : relayed env call = some x) (d d' : Delivery) :
    s.bindingCalled env call d d' = (s, s.relay x.contextId x.callbackId x.outcome) := by
  obtain ⟨name, payload, sessionId, contextId⟩ := call
  cases payload with
  | none => simp [relayed] at h
  | some text =>
    cases sessionId with
    | none => simp [relayed] at h
    | some session =>
      cases contextId with
      | none => simp [relayed] at h
      | some contextId =>
        simp only [relayed] at h
        split at h
        · next hname =>
          split at h <;> cases h
          next callbackId outcome hread =>
          have hoth : ¬ name = extensionBindingName := by
            rw [hname]
            decide
          simp only [bindingCalled, if_neg hoth, if_pos hname, hread, proxy]
        · cases h

theorem changes_contextDestroyed {plugin contextId}
    (h : (s.contextDestroyed contextId).pluginCtxs plugin ≠ s.pluginCtxs plugin) :
    ∃ ctx, s.pluginCtxs plugin = some ctx ∧ ctx.mainCtxId = contextId := by
  cases hctx : s.pluginCtxs plugin with
  | none => exact absurd (by simp [contextDestroyed, hctx]) h
  | some ctx =>
    refine ⟨ctx, rfl, ?_⟩
    by_contra hne
    exact h (by simp [contextDestroyed, hctx, hne])

theorem Routed.routesCorrectly (h : Routed s r) {e} (he : s.Unambiguous env r e) : s.RoutesCorrectly env r e := by
  cases e with
  | bindingCalled call d d' =>
    intro x hx
    obtain ⟨hunq, hmain⟩ := he x hx
    rw [bindingCalled_relayed hx, relay, h.ctxToPlugin_eq hunq]
    cases hplg : r.plugin x.session x.contextId with
    | none => rfl
    | some plugin =>
      obtain ⟨ctx, hctx, hknw⟩ := hmain plugin hplg
      exact ⟨ctx, hctx, hknw, by simp [toMain, hctx, hknw]⟩
  | contextDestroyed session contextId =>
    obtain ⟨hunq, hmain⟩ := he
    refine ⟨?_, ?_, rfl⟩
    · intro plugin hne
      obtain ⟨ctx, hctx, hid⟩ := changes_contextDestroyed hne
      exact ⟨ctx, hctx, hmain plugin ctx hctx hid⟩
    · intro i hne
      have hi : i = contextId := by
        by_contra hi
        exact hne (update_of_ne hi _ _)
      subst hi
      cases hplg : s.ctxToPlugin i with
      | none => exact absurd (by simp [contextDestroyed, hplg]) hne
      | some plugin =>
        obtain ⟨other, hoth, hreg⟩ := h.entry i plugin hplg
        by_cases hs : other = session
        · rw [← hs]
          exact hoth
        · rw [hunq other hs] at hreg
          cases hreg
  | _ => trivial

/-- In every sequence of events that are unambiguous in the state they meet, each event routes as the registry does. -/
theorem routing_correct (env : BinderEnv) (es : List BinderEvent)
    (h : ∀ k e, es[k]? = some e →
      (Binder.initial.afterEvents env (es.take k)).Unambiguous env (Registry.ofEvents (es.take k)) e) :
    ∀ k e, es[k]? = some e →
      (Binder.initial.afterEvents env (es.take k)).RoutesCorrectly env (Registry.ofEvents (es.take k)) e := by
  have hrtd : ∀ k, Routed (Binder.initial.afterEvents env (es.take k)) (Registry.ofEvents (es.take k)) := by
    intro k
    induction k with
    | zero =>
      constructor
      · intro i plugin hi
        cases hi
      · intro session i hi
        exact absurd rfl hi
    | succ k ih =>
      cases he : es[k]? with
      | none =>
        rw [List.take_add_one, he, Option.toList_none, List.append_nil]
        exact ih
      | some e =>
        have hstep := ih.handle (h k e he)
        rw [List.take_add_one, he]
        simpa [Binder.afterEvents, Registry.ofEvents, List.foldl_append] using hstep
  intro k e he
  exact (hrtd k).routesCorrectly (h k e he)

def registerAndDestroy (session : Bytes) : List BinderEvent :=
  [.registerIsolatedCtx (utf8 "theme") 5 (utf8 "store"), .contextDestroyed session 5]

def noEnv : BinderEnv := ⟨fun _ => .error [], ⟨id, fun _ => [], id⟩⟩

theorem routing_correct_sameSession :
    (Binder.initial.afterEvents noEnv ((registerAndDestroy (utf8 "store")).take 1)).RoutesCorrectly noEnv
      (Registry.ofEvents ((registerAndDestroy (utf8 "store")).take 1)) (.contextDestroyed (utf8 "store") 5) := by
  refine routing_correct noEnv (registerAndDestroy (utf8 "store")) ?_ 1 _ rfl
  intro k e he
  cases k with
  | zero =>
    cases he
    trivial
  | succ k =>
    cases k with
    | zero =>
      cases he
      constructor
      · intro other hoth
        show (Registry.empty.set _ _ _).plugin other 5 = none
        rw [Registry.plugin_set, if_neg fun h => hoth h.1]
        rfl
      · intro plugin ctx hctx hid
        -- the plugin has no main context yet
        replace hctx : update (fun _ => none) (utf8 "theme") (some ⟨-1, 5, [], utf8 "store"⟩) plugin = some ctx := hctx
        rw [update_apply] at hctx
        split at hctx <;> cases hctx
        exact absurd hid (by decide)
    | succ k => cases he

theorem destroyed_elsewhere_erases_route :
    ¬ (Binder.initial.afterEvents noEnv ((registerAndDestroy (utf8 "shared")).take 1)).RoutesCorrectly noEnv
        (Registry.ofEvents ((registerAndDestroy (utf8 "shared")).take 1)) (.contextDestroyed (utf8 "shared") 5) := by
  rintro ⟨-, hrt, -⟩
  exact absurd (hrt 5 (by decide +kernel)) (by decide +kernel)

end Binder

end CloudeLoader.Ffi
