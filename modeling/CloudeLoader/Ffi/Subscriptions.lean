import CloudeLoader.Ffi.Binder
import CloudeLoader.Cdp.Listeners
import CloudeLoader.Lib.Transition

/-!
# Subscriptions to events (`ffi_binder.cc`)

A plugin subscribes to an event of the browser and gets it in its main context.  The binder has one listener for every
event with a subscriber, and keeps its token.
-/

namespace CloudeLoader.Ffi

open Function Transition JsonDoc List Option

open Engine (Bytes utf8)
open Cdp (Listener Listeners)
open Binder (ProxyAction readProxy)

variable {plugins : List Bytes} {n : Nat} {e : BinderEvent}

/-! ### The code -/

/-- A callback: `cdp_event_dispatch` for an event, or one of another component or of the binder itself. -/
inductive Callback where
  | dispatch (event : Bytes)
  | other
  deriving DecidableEq

def Callback.isDispatch : Callback → Bool
  | .dispatch _ => true
  | .other => false

/-- The binder with its table of tokens, the client, and the tokens that others hold. -/
structure Hub where
  binder : Binder
  eventSubTokens : Bytes → Option Int
  client : Listeners Callback
  others : List Int

namespace Hub

/-- What `subscribe` does for the first subscriber of an event. -/
def subscribe (s : Hub) (event : Bytes) : Hub :=
  let (client, token) := s.client.on event (.dispatch event)
  { s with client := client, eventSubTokens := update s.eventSubTokens event (some token) }

/-- What `unsubscribe` does for the last one. -/
def unsubscribe (s : Hub) (event : Bytes) : Hub :=
  match s.eventSubTokens event with
  | none => s
  | some token => { s with client := s.client.off token, eventSubTokens := update s.eventSubTokens event none }

def asked (env : BinderEnv) : BinderEvent → ProxyAction
  | .bindingCalled call _ _ =>
    match call.payload, call.sessionId, call.contextId with
    | some text, some _, some _ =>
      if call.name = extensionBindingName then .nothing
      else if call.name = cdpProxyBindingName then readProxy env text
      else .nothing
    | _, _, _ => .nothing
  | _ => .nothing

/-- The table of subscribers is that of the binder, where an event without an entry has none. -/
def handle (env : BinderEnv) (s : Hub) (e : BinderEvent) : Hub :=
  let after := { s with binder := (s.binder.handle env e).1 }
  match asked env e with
  | .subscribe _ event => if s.binder.eventSubs event = [] then after.subscribe event else after
  | .unsubscribe _ event =>
    if s.binder.eventSubs event ≠ [] ∧ after.binder.eventSubs event = [] then after.unsubscribe event else after
  | _ => after

def otherOn (s : Hub) (event : Bytes) : Hub :=
  let (client, token) := s.client.on event .other
  { s with client := client, others := s.others ++ [token] }

def initial : Hub :=
  let s : Hub := ⟨Binder.initial, fun _ => none, .empty, []⟩
  ((s.otherOn (utf8 "Runtime.bindingCalled")).otherOn (utf8 "Runtime.executionContextCreated")).otherOn
    (utf8 "Runtime.executionContextDestroyed")

def knowsMain (s : Hub) (plugin : Bytes) : Bool := (s.binder.pluginCtxs plugin).any (·.mainCtxId ≠ -1)

def cdpEventDispatch (s : Hub) (event : Bytes) : List Bytes := (s.binder.eventSubs event).filter s.knowsMain

/-! ### Runs -/

/-- What happens at the granularity of `m_ctx_mutex`: an event of the binder, or another component registers a listener or
removes one of its own. -/
inductive Step where
  | binder (e : BinderEvent)
  | otherOn (event : Bytes)
  | otherOff (token : Int)

def step (env : BinderEnv) (s : Hub) : Step → Option Hub
  | .binder e => some (s.handle env e)
  | .otherOn event => some (s.otherOn event)
  | .otherOff token =>
    if token ∈ s.others then some { s with client := s.client.off token, others := s.others.erase token } else none

def registers (env : BinderEnv) (s : Hub) : Step → Bool
  | .binder e =>
    match asked env e with
    | .subscribe _ event => s.binder.eventSubs event = []
    | _ => false
  | .otherOn _ => true
  | .otherOff _ => false

/-- A listener is only registered when the next token is not in use. -/
def freshStep (env : BinderEnv) (s : Hub) (st : Step) : Bool := !s.registers env st || s.client.isFresh

def Step.message (env : BinderEnv) : Step → Option (Bytes × Bytes × Bool)
  | .binder e =>
    match asked env e with
    | .subscribe plugin event => some (plugin, event, true)
    | .unsubscribe plugin event => some (plugin, event, false)
    | _ => none
  | _ => none

def lastMessage (env : BinderEnv) (steps : List Step) (plugin event : Bytes) : Option Bool :=
  ((steps.filterMap (Step.message env)).filter fun m => m.1 = plugin ∧ m.2.1 = event).getLast?.map (·.2.2)

/-- There is a token for an event exactly if it has subscribers, then there is exactly one listener of the binder for it and
else none, and the event goes to the plugins whose last message was to subscribe and whose main context is known. -/
structure Exact (env : BinderEnv) (steps : List Step) (s : Hub) : Prop where
  tokens : ∀ event, (s.eventSubTokens event).isSome = true ↔ s.binder.eventSubs event ≠ []
  listeners : ∀ event, (s.client.eventCallbacks event).countP (·.callback.isDispatch) =
    if (s.eventSubTokens event).isSome then 1 else 0
  calls : ∀ event l, l ∈ s.client.eventCallbacks event → l.callback.isDispatch = true → l.callback = .dispatch event
  receivers : ∀ event plugin, plugin ∈ s.cdpEventDispatch event ↔
    lastMessage env steps plugin event = some true ∧ s.knowsMain plugin = true

/-! ### The tables -/

/-- The listeners of the binder are those with a token, and those of others are not. -/
structure Registered (s : Hub) : Prop where
  client : s.client.Ok
  token : ∀ {e t}, s.eventSubTokens e = some t → ⟨t, .dispatch e⟩ ∈ s.client.eventCallbacks e
  dispatch : ∀ {e e' t}, ⟨t, .dispatch e'⟩ ∈ s.client.eventCallbacks e → e' = e ∧ s.eventSubTokens e = some t
  others : ∀ {t}, t ∈ s.others → ∃ e, ⟨t, .other⟩ ∈ s.client.eventCallbacks e
  nodup : s.others.Nodup

structure Tables (s : Hub) : Prop extends Registered s where
  subs : ∀ e, (s.binder.eventSubs e).Nodup
  tokens : ∀ e, (s.eventSubTokens e).isSome = true ↔ s.binder.eventSubs e ≠ []

variable {env : BinderEnv} {s s' : Hub} {plugin event : Bytes} {st : Step} {steps : List Step}

theorem Registered.withBinder (h : s.Registered) (binder : Binder) : Registered { s with binder := binder } :=
  ⟨h.client, h.token, h.dispatch, h.others, h.nodup⟩

theorem Registered.otherOn (h : s.Registered) (hfrs : s.client.isFresh = true) : (s.otherOn event).Registered := by
  have hmem : ∀ {l e}, l ∈ (s.client.on event .other).1.eventCallbacks e ↔ _ := h.client.mem_on_iff
  unfold Hub.otherOn
  constructor
  · exact h.client.on hfrs
  · exact fun ht => hmem.2 (.inl (h.token ht))
  · intro e e' t hl
    rcases hmem.1 hl with hl | ⟨-, hl⟩
    · exact h.dispatch hl
    · cases hl
  · intro t ht
    rcases mem_append.1 ht with ht | ht
    · obtain ⟨e, hl⟩ := h.others ht
      exact ⟨e, hmem.2 (.inl hl)⟩
    · obtain rfl := mem_singleton.1 ht
      exact ⟨event, hmem.2 (.inr ⟨rfl, by rw [Listeners.on_snd]⟩)⟩
  · refine nodup_append.2 ⟨h.nodup, nodup_singleton _, ?_⟩
    intro t ht t' ht' heq
    obtain ⟨e, hl⟩ := h.others ht
    obtain rfl := mem_singleton.1 ht'
    have hevn := h.client.event hl
    rw [heq, Listeners.on_snd, isNone_iff_eq_none.1 hfrs] at hevn
    cases hevn

theorem Registered.otherOff (h : s.Registered) {t} (ht : t ∈ s.others) :
    Registered { s with client := s.client.off t, others := s.others.erase t } := by
  obtain ⟨e₀, hoth⟩ := h.others ht
  constructor
  · exact h.client.off t
  · intro e t' ht'
    refine h.client.mem_off_iff.2 ⟨h.token ht', fun heq => ?_⟩
    cases (h.client.eq_of_token (h.token ht') hoth heq).2
  · exact fun hl => h.dispatch (h.client.mem_off_iff.1 hl).1
  · intro t' ht'
    obtain ⟨hne, ht'⟩ := h.nodup.mem_erase_iff.1 ht'
    obtain ⟨e, hl⟩ := h.others ht'
    exact ⟨e, h.client.mem_off_iff.2 ⟨hl, hne⟩⟩
  · exact h.nodup.erase t

theorem subscribe_eq (s : Hub) (event : Bytes) :
    s.subscribe event =
      { s with
        client := (s.client.on event (.dispatch event)).1
        eventSubTokens := update s.eventSubTokens event (some s.client.nextEventToken) } := by
  rw [← Listeners.on_snd]
  rfl

theorem Registered.subscribe (h : s.Registered) (hfrs : s.client.isFresh = true) (hnone : s.eventSubTokens event = none) :
    (s.subscribe event).Registered := by
  have hmem : ∀ {l e}, l ∈ (s.client.on event (.dispatch event)).1.eventCallbacks e ↔ _ := h.client.mem_on_iff
  rw [subscribe_eq]
  constructor
  · exact h.client.on hfrs
  · intro e t ht
    by_cases he : e = event
    · subst he
      simp only [update_self, Option.some.injEq] at ht
      exact hmem.2 (.inr ⟨rfl, by rw [ht]⟩)
    · simp only [update_of_ne he] at ht
      exact hmem.2 (.inl (h.token ht))
  · intro e e' t hl
    rcases hmem.1 hl with hl | ⟨he, hl⟩
    · obtain ⟨rfl, ht⟩ := h.dispatch hl
      have hne : e' ≠ event := by
        rintro rfl
        cases hnone.symm.trans ht
      exact ⟨rfl, (update_of_ne hne ..).trans ht⟩
    · cases hl
      exact ⟨he.symm, by rw [he]; exact update_self ..⟩
  · intro t ht
    obtain ⟨e, hl⟩ := h.others ht
    exact ⟨e, hmem.2 (.inl hl)⟩
  · exact h.nodup

theorem unsubscribe_binder (s : Hub) (event : Bytes) : (s.unsubscribe event).binder = s.binder := by
  unfold Hub.unsubscribe
  split <;> rfl

theorem Registered.unsubscribe (h : s.Registered) {t} (ht : s.eventSubTokens event = some t) :
    Registered { s with client := s.client.off t, eventSubTokens := update s.eventSubTokens event none } := by
  constructor
  · exact h.client.off t
  · intro e t' ht'
    by_cases hee : e = event
    · subst hee
      simp at ht'
    · simp only [update_of_ne hee] at ht'
      refine h.client.mem_off_iff.2 ⟨h.token ht', fun heq => hee ?_⟩
      exact (h.client.eq_of_token (h.token ht') (h.token ht) heq).1
  · intro e e' t' hl
    obtain ⟨hl, hne⟩ := h.client.mem_off_iff.1 hl
    obtain ⟨rfl, ht'⟩ := h.dispatch hl
    refine ⟨rfl, (update_of_ne ?_ ..).trans ht'⟩
    rintro rfl
    exact hne (Option.some.inj (ht'.symm.trans ht))
  · intro t' ht'
    obtain ⟨e, hl⟩ := h.others ht'
    refine ⟨e, h.client.mem_off_iff.2 ⟨hl, fun heq => ?_⟩⟩
    cases (h.client.eq_of_token hl (h.token ht) heq).2
  · exact h.nodup

/-! ### The subscribers -/

def applyAsked (subs : Bytes → List Bytes) : ProxyAction → Bytes → List Bytes
  | .subscribe plugin event => update subs event ((subs event).insert plugin)
  | .unsubscribe plugin event => update subs event ((subs event).erase plugin)
  | _ => subs

theorem extensionRoute_eventSubs (env : BinderEnv) (b : Binder) (text session : Bytes) (contextId : Int) :
    (b.extensionRoute env text session contextId).1.eventSubs = b.eventSubs := by
  unfold Binder.extensionRoute
  split
  · rfl
  · split
    · rfl
    · split <;> rfl

theorem proxy_eventSubs (b : Binder) (session : Bytes) (contextId : Int) (action : ProxyAction) :
    (b.proxy session contextId action).1.eventSubs = applyAsked b.eventSubs action := by
  cases action with
  | cdpCall plugin callbackId method params target =>
    show ((b.setMain plugin session contextId).cdpProxyCall plugin callbackId method params target session
      contextId).1.eventSubs = b.eventSubs
    unfold Binder.cdpProxyCall
    split <;> rfl
  | relay => rfl
  | subscribe => rfl
  | unsubscribe => rfl
  | nothing => rfl

theorem binder_handle_eventSubs (env : BinderEnv) (b : Binder) (e : BinderEvent) :
    (b.handle env e).1.eventSubs = applyAsked b.eventSubs (asked env e) := by
  cases e with
  | bindingCalled call d d' =>
    obtain ⟨name, payload, session, contextId⟩ := call
    rcases payload with _ | text
    · rfl
    rcases session with _ | session
    · rfl
    rcases contextId with _ | contextId
    · rfl
    simp only [Binder.handle, Binder.bindingCalled, asked]
    by_cases hext : name = extensionBindingName
    · rw [if_pos hext, if_pos hext]
      exact extensionRoute_eventSubs env b text session contextId
    by_cases hprx : name = cdpProxyBindingName
    · rw [if_neg hext, if_neg hext, if_pos hprx, if_pos hprx]
      exact proxy_eventSubs b session contextId _
    · rw [if_neg hext, if_neg hprx, if_neg hprx]
      split
      · rfl
      · split <;> rfl
  | answered k outcome =>
    simp only [Binder.handle, asked, applyAsked]
    split <;> rfl
  | registerIsolatedCtx => rfl
  | contextCreated => rfl
  | contextDestroyed => rfl
  | cdpEvent => rfl
  | sharedJsSession => rfl

theorem handle_binder (env : BinderEnv) (s : Hub) (e : BinderEvent) :
    (s.handle env e).binder = (s.binder.handle env e).1 := by
  unfold Hub.handle
  cases asked env e with
  | subscribe plugin event =>
    dsimp only
    split <;> rfl
  | unsubscribe plugin event =>
    dsimp only
    split
    · exact unsubscribe_binder ..
    · rfl
  | cdpCall => rfl
  | relay => rfl
  | nothing => rfl

theorem handle_eventSubs (env : BinderEnv) (s : Hub) (e : BinderEvent) :
    (s.handle env e).binder.eventSubs = applyAsked s.binder.eventSubs (asked env e) := by
  rw [handle_binder, binder_handle_eventSubs]

theorem nodup_applyAsked {subs : Bytes → List Bytes} (h : ∀ e, (subs e).Nodup) (action : ProxyAction) :
    ∀ e, (applyAsked subs action e).Nodup := by
  cases action with
  | subscribe plugin event => exact (forall_update_iff subs fun _ l => l.Nodup).2 ⟨(h event).insert, fun e _ => h e⟩
  | unsubscribe plugin event =>
    exact (forall_update_iff subs fun _ l => l.Nodup).2 ⟨(h event).erase plugin, fun e _ => h e⟩
  | cdpCall => exact h
  | relay => exact h
  | nothing => exact h

/-! ### Events -/

theorem handle_of_first (hask : asked env e = .subscribe plugin event) (hfst : s.binder.eventSubs event = []) :
    s.handle env e = Hub.subscribe { s with binder := (s.binder.handle env e).1 } event := by
  simp only [Hub.handle, hask, if_pos hfst]

theorem handle_of_last {t} (hask : asked env e = .unsubscribe plugin event) (hsubs : s.binder.eventSubs event ≠ [])
    (hlast : (s.binder.eventSubs event).erase plugin = []) (ht : s.eventSubTokens event = some t) :
    s.handle env e =
      { s with
        binder := (s.binder.handle env e).1
        client := s.client.off t
        eventSubTokens := update s.eventSubTokens event none } := by
  have hnil : (s.binder.handle env e).1.eventSubs event = [] := by
    rw [binder_handle_eventSubs, hask, applyAsked, update_self, hlast]
  simp only [Hub.handle, hask, ne_eq, hsubs, not_false_eq_true, hnil, and_self, if_true, Hub.unsubscribe, ht]

private theorem tokens_update {tokens : Bytes → Option Int} {subs : Bytes → List Bytes} {o : Option Int}
    (h : ∀ e, (tokens e).isSome = true ↔ subs e ≠ []) (hevn : o.isSome = true ↔ plugins ≠ []) (e : Bytes) :
    (update tokens event o e).isSome = true ↔ update subs event plugins e ≠ [] := by
  by_cases he : e = event
  · subst he
    rwa [update_self, update_self]
  · rw [update_of_ne he, update_of_ne he]
    exact h e

theorem Tables.handle (h : s.Tables) (hfrs : s.freshStep env (.binder e) = true) : (s.handle env e).Tables := by
  have hreg := h.withBinder (s.binder.handle env e).1
  have hsubs : ∀ e', ((s.handle env e).binder.eventSubs e').Nodup := by
    rw [handle_eventSubs]
    exact nodup_applyAsked h.subs _
  -- The listeners, and which events have a token, by what is asked.
  suffices hrest : (s.handle env e).Registered ∧ ∀ e', ((s.handle env e).eventSubTokens e').isSome = true ↔
      applyAsked s.binder.eventSubs (asked env e) e' ≠ [] by
    rw [← handle_eventSubs] at hrest
    exact ⟨hrest.1, hsubs, hrest.2⟩
  cases hask : asked env e with
  | subscribe plugin event =>
    have hne : (s.binder.eventSubs event).insert plugin ≠ [] := ne_nil_of_mem mem_insert_self
    by_cases hfst : s.binder.eventSubs event = []
    · have hfrs : s.client.isFresh = true := by simpa [freshStep, registers, hask, hfst] using hfrs
      have hnone : s.eventSubTokens event = none := by simpa [hfst] using h.tokens event
      rw [handle_of_first hask hfst]
      exact ⟨hreg.subscribe hfrs hnone, tokens_update h.tokens (by simp [hne])⟩
    · have hsome := (h.tokens event).2 hfst
      simp only [Hub.handle, hask, if_neg hfst]
      refine ⟨hreg, ?_⟩
      rw [← update_eq_self event s.eventSubTokens]
      exact tokens_update h.tokens (by simp [hne, hsome])
  | unsubscribe plugin event =>
    by_cases hlast : s.binder.eventSubs event ≠ [] ∧ (s.binder.eventSubs event).erase plugin = []
    · obtain ⟨t, ht⟩ := isSome_iff_exists.1 ((h.tokens event).2 hlast.1)
      rw [handle_of_last hask hlast.1 hlast.2 ht]
      exact ⟨hreg.unsubscribe ht, tokens_update h.tokens (by simp [hlast.2])⟩
    · have hkeep : s.handle env e = { s with binder := (s.binder.handle env e).1 } := by
        simp only [Hub.handle, hask, binder_handle_eventSubs, applyAsked, update_self]
        exact if_neg hlast
      have hiff : s.binder.eventSubs event ≠ [] ↔ (s.binder.eventSubs event).erase plugin ≠ [] := by
        constructor
        · exact fun hne hnil => hlast ⟨hne, hnil⟩
        · rintro hne hnil
          exact hne (by rw [hnil]; rfl)
      rw [hkeep]
      refine ⟨hreg, ?_⟩
      rw [← update_eq_self event s.eventSubTokens]
      exact tokens_update h.tokens ((h.tokens event).trans hiff)
  | cdpCall =>
    simp only [Hub.handle, hask]
    exact ⟨hreg, h.tokens⟩
  | relay =>
    simp only [Hub.handle, hask]
    exact ⟨hreg, h.tokens⟩
  | nothing =>
    simp only [Hub.handle, hask]
    exact ⟨hreg, h.tokens⟩

theorem Tables.step (h : s.Tables) (hfrs : s.freshStep env st = true) (hstep : s.step env st = some s') : s'.Tables := by
  cases st with
  | binder e =>
    cases hstep
    exact h.handle hfrs
  | otherOn event =>
    cases hstep
    exact ⟨h.otherOn (by simpa [freshStep, registers] using hfrs), h.subs, h.tokens⟩
  | otherOff token =>
    simp only [Hub.step] at hstep
    split at hstep <;> cases hstep
    next ht =>
    exact ⟨h.otherOff ht, h.subs, h.tokens⟩

theorem tables_initial : initial.Tables := by
  have hemp : Registered ⟨Binder.initial, fun _ => none, .empty, []⟩ := by
    constructor
    · exact Listeners.ok_empty
    · exact fun ht => absurd ht (by simp)
    · exact fun hl => absurd hl not_mem_nil
    · exact fun ht => absurd ht not_mem_nil
    · exact nodup_nil
  have hreg : initial.Registered :=
    ((hemp.otherOn (by decide)).otherOn (by decide +kernel)).otherOn (by decide +kernel)
  exact ⟨hreg, fun _ => nodup_nil, fun _ => by simp [initial, otherOn, Binder.initial]⟩

theorem toMain_of_not_knowsMain (h : s.knowsMain plugin = false) (script : Script) : s.binder.toMain plugin script = [] := by
  unfold knowsMain at h
  unfold Binder.toMain
  cases hctx : s.binder.pluginCtxs plugin with
  | none => rfl
  | some ctx =>
    have hunk : ctx.mainCtxId = -1 := by simpa [hctx] using h
    exact if_pos hunk

theorem handle_cdpEvent (env : BinderEnv) (s : Hub) (event : Bytes) (params : JsonValue) :
    (s.binder.handle env (.cdpEvent event params)).2 =
      (s.cdpEventDispatch event).flatMap fun plugin => s.binder.toMain plugin (.cdpEvent event params) := by
  rw [Binder.handle, cdpEventDispatch]
  dsimp only
  generalize s.binder.eventSubs event = plugins
  induction plugins with
  | nil => rfl
  | cons plugin plugins ih =>
    rw [flatMap_cons, ih, filter_cons]
    cases hmain : s.knowsMain plugin with
    | false =>
      rw [toMain_of_not_knowsMain hmain]
      rfl
    | true => rfl

theorem lastMessage_concat (steps : List Step) (st : Step) (plugin event : Bytes) :
    lastMessage env (steps ++ [st]) plugin event =
      match st.message env with
      | some (plugin', event', subscribes) =>
        if plugin' = plugin ∧ event' = event then some subscribes else lastMessage env steps plugin event
      | none => lastMessage env steps plugin event := by
  unfold lastMessage
  cases hmsg : st.message env with
  | none => simp [hmsg]
  | some m =>
    obtain ⟨plugin', event', subscribes⟩ := m
    by_cases hown : plugin' = plugin ∧ event' = event
    · simp [hmsg, hown]
    · simp [hmsg, hown]

/-- The subscribers are the plugins whose last message was to subscribe. -/
def Follows (env : BinderEnv) (steps : List Step) (s : Hub) : Prop :=
  ∀ event plugin, plugin ∈ s.binder.eventSubs event ↔ lastMessage env steps plugin event = some true

theorem Follows.step (h : s.Follows env steps) (htab : s.Tables) (hstep : s.step env st = some s') :
    s'.Follows env (steps ++ [st]) := by
  intro event plugin
  rw [lastMessage_concat]
  cases st with
  | binder e =>
    cases hstep
    rw [handle_eventSubs, Step.message]
    cases asked env e with
    | subscribe plugin' event' =>
      simp only [applyAsked]
      by_cases he : event = event'
      · subst he
        by_cases hp : plugin = plugin'
        · simp [hp]
        · simp [hp, Ne.symm hp, h event plugin]
      · rw [update_of_ne he, if_neg (fun heq => he heq.2.symm)]
        exact h event plugin
    | unsubscribe plugin' event' =>
      simp only [applyAsked]
      by_cases he : event = event'
      · subst he
        rw [update_self, (htab.subs event).mem_erase_iff]
        by_cases hp : plugin = plugin'
        · simp [hp]
        · simp [hp, Ne.symm hp, h event plugin]
      · rw [update_of_ne he, if_neg (fun heq => he heq.2.symm)]
        exact h event plugin
    | cdpCall => exact h event plugin
    | relay => exact h event plugin
    | nothing => exact h event plugin
  | otherOn event' =>
    cases hstep
    exact h event plugin
  | otherOff token =>
    simp only [Hub.step] at hstep
    split at hstep <;> cases hstep
    exact h event plugin

theorem Tables.countP_eq (h : s.Tables) (event : Bytes) :
    (s.client.eventCallbacks event).countP (·.callback.isDispatch) = if (s.eventSubTokens event).isSome then 1 else 0 := by
  have hown : ∀ l ∈ s.client.eventCallbacks event, l.callback.isDispatch = true →
      l.callback = .dispatch event ∧ s.eventSubTokens event = some l.token := by
    rintro ⟨t, callback⟩ hl hcal
    cases callback with
    | dispatch e =>
      obtain ⟨rfl, ht⟩ := h.dispatch hl
      exact ⟨rfl, ht⟩
    | other => cases hcal
  cases ht : s.eventSubTokens event with
  | none =>
    refine countP_eq_zero.2 fun l hl hcal => ?_
    cases ht.symm.trans (hown l hl hcal).2
  | some t =>
    have hnod : (s.client.eventCallbacks event).Nodup := (h.client.nodup event).of_map _
    have heq : ∀ l ∈ s.client.eventCallbacks event,
        l.callback.isDispatch = true ↔ (l == ⟨t, .dispatch event⟩) = true := by
      intro l hl
      rw [beq_iff_eq]
      constructor
      · intro hcal
        obtain ⟨hc, htok⟩ := hown l hl hcal
        cases ht.symm.trans htok
        cases l
        cases hc
        rfl
      · rintro rfl
        rfl
    rw [countP_congr heq]
    exact count_eq_one_of_mem hnod (h.token ht)

theorem tables_and_follows (h : run (Hub.step env) initial steps = some s)
    (hfrs : along (Hub.step env) (Hub.freshStep env) initial steps = true) :
    s.Tables ∧ s.Follows env steps := by
  refine run_induction
    (P := fun steps s => along (Hub.step env) (Hub.freshStep env) initial steps = true →
      s.Tables ∧ s.Follows env steps) ?_ ?_ h hfrs
  · intro _
    exact ⟨tables_initial, fun _ _ => by simp [initial, otherOn, Binder.initial, lastMessage]⟩
  · intro steps s st s' hrun ih hstep hfrs
    rw [along_concat hrun, Bool.and_eq_true] at hfrs
    obtain ⟨htab, hfol⟩ := ih hfrs.1
    exact ⟨htab.step hfrs.2 hstep, hfol.step htab hstep⟩

theorem Tables.exact (htab : s.Tables) (hfol : s.Follows env steps) : s.Exact env steps := by
  constructor
  · exact htab.tokens
  · exact htab.countP_eq
  · rintro event ⟨t, callback⟩ hl hcal
    cases callback with
    | dispatch e => rw [(htab.dispatch hl).1]
    | other => cases hcal
  · intro event plugin
    rw [← hfol event plugin]
    exact mem_filter

/-! ### The first tokens -/

theorem exists_numbered_handle (h : s.client.Numbered n) : ∃ m ≤ n + 1, (s.handle env e).client.Numbered m := by
  unfold Hub.handle
  cases asked env e with
  | subscribe plugin event =>
    dsimp only
    split
    · exact ⟨n + 1, by omega, h.on⟩
    · exact ⟨n, by omega, h⟩
  | unsubscribe plugin event =>
    refine ⟨n, by omega, ?_⟩
    dsimp only
    unfold Hub.unsubscribe
    split
    · split
      · exact h
      · exact h.off _
    · exact h
  | cdpCall => exact ⟨n, by omega, h⟩
  | relay => exact ⟨n, by omega, h⟩
  | nothing => exact ⟨n, by omega, h⟩

theorem exists_numbered_step (h : s.client.Numbered n) (hstep : s.step env st = some s') :
    ∃ m ≤ n + 1, s'.client.Numbered m := by
  cases st with
  | binder e =>
    cases hstep
    exact exists_numbered_handle h
  | otherOn event =>
    cases hstep
    exact ⟨n + 1, by omega, h.on⟩
  | otherOff token =>
    simp only [Hub.step] at hstep
    split at hstep <;> cases hstep
    exact ⟨n, by omega, h.off token⟩

theorem along_freshStep (h : s.client.Numbered n) (hlen : n + steps.length ≤ 2 ^ 32) :
    along (Hub.step env) (Hub.freshStep env) s steps = true := by
  induction steps generalizing s n with
  | nil => rfl
  | cons st steps ih =>
    rw [length_cons] at hlen
    rw [along, Bool.and_eq_true]
    refine ⟨?_, ?_⟩
    · rw [freshStep, h.isFresh (by omega), Bool.or_true]
    · cases hstep : s.step env st with
      | none => rfl
      | some s' =>
        obtain ⟨m, hm, hnext⟩ := exists_numbered_step h hstep
        exact ih hnext (by omega)

theorem numbered_initial : initial.client.Numbered 3 := Listeners.numbered_empty.on.on.on

theorem exact_of_length (h : run (Hub.step env) initial steps = some s) (hlen : 3 + steps.length ≤ 2 ^ 32) :
    s.Exact env steps := by
  obtain ⟨htab, hfol⟩ := tables_and_follows h (along_freshStep numbered_initial hlen)
  exact htab.exact hfol

/-! ### Messages of two plugins -/

structure Message where
  action : String
  plugin : Bytes
  event : Bytes

def Message.text (m : Message) : Bytes :=
  utf8 "\x7b\"action\":\"" ++ utf8 m.action ++ utf8 "\",\"pluginName\":\"" ++ m.plugin ++ utf8 "\",\"event\":\"" ++
    m.event ++ utf8 "\"\x7d"

def Message.json (m : Message) : JsonValue :=
  .obj [(utf8 "action", .str (utf8 m.action)), (pluginNameKey, .str m.plugin), (utf8 "event", .str m.event)]

def pSubscribes : Message := ⟨"subscribe", [112], [97]⟩
def pUnsubscribes : Message := ⟨"unsubscribe", [112], [97]⟩
def qSubscribes : Message := ⟨"subscribe", [113], [98]⟩
def qUnsubscribes : Message := ⟨"unsubscribe", [113], [98]⟩

def messagesEnv : BinderEnv where
  parse text :=
    match [pSubscribes, pUnsubscribes, qSubscribes, qUnsubscribes].find? (·.text = text) with
    | some m => .ok m.json
    | none => .error []
  call := ⟨id, fun _ => [], id⟩

def sent (m : Message) : BinderEvent :=
  .bindingCalled ⟨cdpProxyBindingName, some m.text, some (utf8 "session"), some 5⟩ ⟨true, none⟩ ⟨true, none⟩

theorem asked_eq_subscribe (h : Step.message env (.binder e) = some (plugin, event, true)) :
    asked env e = .subscribe plugin event := by
  unfold Step.message at h
  cases hask : asked env e <;> simp_all

theorem asked_eq_unsubscribe (h : Step.message env (.binder e) = some (plugin, event, false)) :
    asked env e = .unsubscribe plugin event := by
  unfold Step.message at h
  cases hask : asked env e <;> simp_all

theorem asked_pUnsubscribes : asked messagesEnv (sent pUnsubscribes) = .unsubscribe [112] [97] :=
  asked_eq_unsubscribe (by decide +kernel)

theorem asked_qSubscribes : asked messagesEnv (sent qSubscribes) = .subscribe [113] [98] :=
  asked_eq_subscribe (by decide +kernel)

theorem asked_qUnsubscribes : asked messagesEnv (sent qUnsubscribes) = .unsubscribe [113] [98] :=
  asked_eq_unsubscribe (by decide +kernel)

/-- In every run in which a listener is only registered when the next token is not in use, the tables are exact in every
state. -/
theorem exact_of_run (h : run (Hub.step env) initial steps = some s)
    (hfresh : along (Hub.step env) (Hub.freshStep env) initial steps = true) : s.Exact env steps := by
  obtain ⟨htab, hfol⟩ := tables_and_follows h hfresh
  exact htab.exact hfol

theorem exact_pSubscribes :
    (initial.handle messagesEnv (sent pSubscribes)).Exact messagesEnv [.binder (sent pSubscribes)] :=
  exact_of_run rfl (by decide +kernel)

/-- After fewer than `2 ^ 32 - 3` steps an event goes, once, to each plugin whose last message was to subscribe and whose main
context is known, and to no other. -/
theorem event_delivered (h : run (Hub.step env) initial steps = some s) (hlen : 3 + steps.length ≤ 2 ^ 32)
    (event : Bytes) (params : JsonValue) :
    ∃ plugins : List Bytes, plugins.Nodup ∧
      (∀ plugin, plugin ∈ plugins ↔ lastMessage env steps plugin event = some true ∧ s.knowsMain plugin = true) ∧
      (s.binder.handle env (.cdpEvent event params)).2 =
        plugins.flatMap fun plugin => s.binder.toMain plugin (.cdpEvent event params) := by
  refine ⟨s.cdpEventDispatch event, ?_, (exact_of_length h hlen).receivers event, handle_cdpEvent env s event params⟩
  have htab := (tables_and_follows h (along_freshStep numbered_initial hlen)).1
  exact (htab.subs event).filter _

theorem event_delivered_pSubscribes :
    lastMessage messagesEnv [.binder (sent pSubscribes)] [112] [97] = some true ∧
      (initial.handle messagesEnv (sent pSubscribes)).knowsMain [112] = true ∧
      ∃ plugins : List Bytes, plugins.Nodup ∧
        (∀ plugin, plugin ∈ plugins ↔ lastMessage messagesEnv [.binder (sent pSubscribes)] plugin [97] = some true ∧
          (initial.handle messagesEnv (sent pSubscribes)).knowsMain plugin = true) ∧
        ((initial.handle messagesEnv (sent pSubscribes)).binder.handle messagesEnv (.cdpEvent [97] .null)).2 =
          plugins.flatMap fun plugin =>
            (initial.handle messagesEnv (sent pSubscribes)).binder.toMain plugin (.cdpEvent [97] .null) :=
  ⟨by decide +kernel, by decide +kernel, event_delivered rfl (by decide) [97] .null⟩

/-! ### Tokens that come again -/

/-- The plugin `p` is subscribed with token 4, the plugin `q` is not subscribed, and so many listeners were registered. -/
structure Looped (n : Nat) (s : Hub) : Prop where
  next : s.client.nextEventToken = int32 (n + 1)
  active : s.client.isShutdown = false
  four : s.client.tokenToEvent 4 = some [97]
  token : s.eventSubTokens [97] = some 4
  subsP : s.binder.eventSubs [97] = [[112]]
  subsQ : s.binder.eventSubs [98] = []
  callsP : s.client.eventCallbacks [97] = [⟨4, .dispatch [97]⟩]
  callsQ : s.client.eventCallbacks [98] = []

structure Both (n : Nat) (s : Hub) : Prop where
  next : s.client.nextEventToken = int32 (n + 1 + 1)
  active : s.client.isShutdown = false
  own : s.client.tokenToEvent (int32 (n + 1)) = some [98]
  four : int32 (n + 1) ≠ 4 → s.client.tokenToEvent 4 = some [97]
  tokenP : s.eventSubTokens [97] = some 4
  tokenQ : s.eventSubTokens [98] = some (int32 (n + 1))
  subsP : s.binder.eventSubs [97] = [[112]]
  subsQ : s.binder.eventSubs [98] = [[113]]
  callsP : s.client.eventCallbacks [97] = [⟨4, .dispatch [97]⟩]
  callsQ : s.client.eventCallbacks [98] = [⟨int32 (n + 1), .dispatch [98]⟩]

theorem Looped.both (h : Looped n s) : Both n (s.handle messagesEnv (sent qSubscribes)) := by
  have hsubs := handle_eventSubs messagesEnv s (sent qSubscribes)
  rw [handle_of_first asked_qSubscribes h.subsQ] at hsubs ⊢
  rw [asked_qSubscribes, applyAsked, h.subsQ] at hsubs
  rw [subscribe_eq, Listeners.on_fst h.active] at hsubs ⊢
  constructor
  · simp [h.next, int32]
  · exact h.active
  · simp [h.next]
  · intro hfour
    simp only [h.next, update_of_ne (Ne.symm hfour)]
    exact h.four
  · simp [h.token]
  · simp [h.next]
  · exact (congrFun hsubs [97]).trans (by simp [h.subsP])
  · exact (congrFun hsubs [98]).trans (by simp)
  · simp [h.callsP]
  · simp [h.callsQ, h.next]

theorem Both.looped (h : Both n s) (hfour : int32 (n + 1) ≠ 4) :
    Looped (n + 1) (s.handle messagesEnv (sent qUnsubscribes)) := by
  have hsubs := handle_eventSubs messagesEnv s (sent qUnsubscribes)
  rw [handle_of_last asked_qUnsubscribes (by simp [h.subsQ]) (by simp [h.subsQ]) h.tokenQ,
    Listeners.off_of_some h.own] at hsubs ⊢
  rw [asked_qUnsubscribes, applyAsked, h.subsQ] at hsubs
  constructor
  · exact h.next
  · exact h.active
  · simp only [update_of_ne (Ne.symm hfour)]
    exact h.four hfour
  · simp [h.tokenP]
  · exact (congrFun hsubs [97]).trans (by simp [h.subsP])
  · exact (congrFun hsubs [98]).trans (by simp)
  · simp [h.callsP]
  · simp [h.callsQ]

theorem Both.not_exact (h : Both n s) (hfour : int32 (n + 1) = 4) (steps : List Step) :
    ¬ (s.handle messagesEnv (sent pUnsubscribes)).Exact messagesEnv steps := by
  intro hexc
  have hlis := hexc.listeners [97]
  rw [handle_of_last asked_pUnsubscribes (by simp [h.subsP]) (by simp [h.subsP]) h.tokenP,
    Listeners.off_of_some (hfour ▸ h.own)] at hlis
  simp [h.callsP, Callback.isDispatch] at hlis

theorem run_binder (e : BinderEvent) :
    run (Hub.step env) s (.binder e :: steps) = run (Hub.step env) (s.handle env e) steps :=
  run_cons

def rounds (k : Nat) : List Step :=
  (List.replicate k [Step.binder (sent qSubscribes), Step.binder (sent qUnsubscribes)]).flatten

theorem Looped.rounds (h : Looped n s) (hn : 4 ≤ n) (k : Nat) (hk : n + k ≤ 2 ^ 32 + 3) :
    ∃ s', run (Hub.step messagesEnv) s (rounds k) = some s' ∧ Looped (n + k) s' := by
  induction k generalizing s n with
  | zero => exact ⟨s, rfl, h⟩
  | succ k ih =>
    have hfour : int32 (n + 1) ≠ 4 := by
      intro heq
      have hmod := int32_emod_eq (heq.trans (show (4 : Int) = int32 4 by decide))
      omega
    obtain ⟨s', hrun, hlpd⟩ := ih (h.both.looped hfour) (by omega) (by omega)
    refine ⟨s', ?_, by rwa [show n + 1 + k = n + (k + 1) by omega] at hlpd⟩
    exact hrun

theorem looped_initial : Looped 4 (initial.handle messagesEnv (sent pSubscribes)) := by
  constructor
  all_goals decide +kernel

def wrapped (k : Nat) : List Step :=
  .binder (sent pSubscribes) :: (rounds k ++ [.binder (sent qSubscribes), .binder (sent pUnsubscribes)])

theorem not_exact_wrapped {k} (hk : 4 + k = 2 ^ 32 + 3) :
    ∃ s, run (Hub.step messagesEnv) initial (wrapped k) = some s ∧ ¬ s.Exact messagesEnv (wrapped k) := by
  obtain ⟨s, hrun, hlpd⟩ := looped_initial.rounds (Nat.le_refl 4) k (by omega)
  have hfour : int32 ((4 + k : Nat) + 1) = 4 := by
    rw [hk]
    decide
  refine ⟨_, ?_, hlpd.both.not_exact hfour (wrapped k)⟩
  rw [wrapped, run_binder, run_append, hrun, bind_some, run_binder, run_binder, run_nil]

theorem wrong_listener_removed :
    ∃ s, run (Hub.step messagesEnv) initial (wrapped 4294967295) = some s ∧
      ¬ s.Exact messagesEnv (wrapped 4294967295) :=
  not_exact_wrapped (by norm_num)

end Hub

end CloudeLoader.Ffi
