import CloudeLoader.Ffi.Binder

/-!
# The block list

The proxy looks at the block list before it passes a command on; the extension route passes on what it is given.
`block_list_complete_iff` says when no command of the block list is passed on.
-/

namespace CloudeLoader.Ffi

open Engine (Bytes utf8)

/-- The request that the extension route reads from a call. -/
def routed (env : BinderEnv) (call : BindingCall) : Option Binder.ExtensionRequest :=
  match call.payload, call.sessionId, call.contextId with
  | some text, some _, some _ =>
    if call.name = extensionBindingName then
      match env.parse text with
      | .error _ => none
      | .ok payload =>
        match payload.atOf JsonValue.getInt (utf8 "id") with
        | .error _ => none
        | .ok _ => (Binder.extensionRequest payload).toOption
    else none
  | _, _, _ => none

namespace Binder

variable {env : BinderEnv} {s : Binder}

def blocks (s : Binder) : Command → Bool
  | .passedOn method _ session => s.isBlocked method session
  | _ => false

def asksBlocked (env : BinderEnv) (s : Binder) : BinderEvent → Bool
  | .bindingCalled call _ _ => (routed env call).any fun r => s.isBlocked r.method r.session
  | _ => false

/-- None of the commands is on the block lists. -/
def Clear (s : Binder) (commands : List Command) : Prop := ∀ c ∈ commands, s.blocks c = false

theorem clear_nil : s.Clear [] := by simp [Clear]

theorem clear_evaluate (session : Bytes) (contextId : Int) (script : Script) :
    s.Clear [.evaluate session contextId script] := by
  simp [Clear, blocks]

theorem clear_extensionFailure (session : Bytes) (contextId callId : Int) (what : Bytes) :
    s.Clear (extensionFailure session contextId callId what) := by
  unfold extensionFailure
  split
  · exact clear_nil
  · exact clear_evaluate _ _ _

theorem clear_toMain (t : Binder) (plugin : Bytes) (script : Script) : s.Clear (t.toMain plugin script) := by
  unfold toMain
  split
  · exact clear_nil
  · split
    · exact clear_nil
    · exact clear_evaluate _ _ _

theorem clear_deliver (outcome : Outcome) (p : Pending) : s.Clear (s.deliver outcome p) := by
  cases p with
  | extension callId session contextId => exact clear_evaluate _ _ _
  | proxy plugin callbackId session contextId =>
    simp only [deliver]
    split
    · exact clear_evaluate _ _ _
    · exact clear_toMain _ _ _

theorem clear_proxy (session : Bytes) (contextId : Int) (action : ProxyAction) :
    s.Clear (s.proxy session contextId action).2 := by
  cases action with
  | cdpCall plugin callbackId method params target =>
    simp only [proxy, cdpProxyCall]
    split
    · exact clear_evaluate _ _ _
    · next h =>
      have hclr : s.isBlocked method target = false := eq_false_of_ne_true h
      simpa [Clear, blocks] using hclr
  | relay callbackId outcome =>
    simp only [proxy, relay]
    split
    · exact clear_nil
    · exact clear_toMain _ _ _
  | _ => exact clear_nil

theorem clear_extensionRoute {text session} {contextId : Int} {call}
    (hname : call.name = extensionBindingName) (hpay : call.payload = some text) (hses : call.sessionId = some session)
    (hcon : call.contextId = some contextId) : s.Clear (s.extensionRoute env text session contextId).2 ↔
      ((routed env call).any fun r => s.isBlocked r.method r.session) = false := by
  unfold extensionRoute routed
  rw [hname, hpay, hses, hcon]
  simp only [if_true]
  cases env.parse text with
  | error what => exact iff_of_true (clear_extensionFailure _ _ _ _) rfl
  | ok payload =>
    dsimp only
    cases payload.atOf JsonValue.getInt (utf8 "id") with
    | error what => exact iff_of_true (clear_extensionFailure _ _ _ _) rfl
    | ok callId =>
      cases extensionRequest payload with
      | error what => exact iff_of_true (clear_extensionFailure _ _ _ _) rfl
      | ok request => simp [Clear, blocks, Except.toOption]

theorem clear_bindingCalled (call : BindingCall) (d d' : Delivery) :
    s.Clear (s.bindingCalled env call d d').2 ↔ s.asksBlocked env (.bindingCalled call d d') = false := by
  unfold bindingCalled
  split
  · next text session contextId hpay hses hcon =>
    split
    · next hname => exact clear_extensionRoute hname hpay hses hcon
    · next hname =>
      have hrtd : routed env call = none := by
        simp only [routed, hpay, hses, hcon, if_neg hname]
      refine iff_of_true ?_ (by simp [asksBlocked, hrtd])
      split
      · exact clear_proxy _ _ _
      · split
        · exact clear_nil
        · split
          · simp [Clear, blocks]
          · exact clear_nil
  · next hmis =>
    refine iff_of_true clear_nil ?_
    have hrtd : routed env call = none := by
      unfold routed
      split
      · next text session contextId hpay hses hcon =>
        exact absurd hcon (hmis text session contextId hpay hses)
      · rfl
    simp [asksBlocked, hrtd]

theorem clear_handle (e : BinderEvent) : s.Clear (s.handle env e).2 ↔ s.asksBlocked env e = false := by
  cases e with
  | bindingCalled call d d' => exact clear_bindingCalled call d d'
  | answered k outcome =>
    refine iff_of_true ?_ rfl
    simp only [handle]
    split
    · exact clear_nil
    · exact clear_deliver _ _
  | contextCreated session contextId => exact iff_of_true (by simp [handle, Clear, blocks]) rfl
  | cdpEvent method params =>
    refine iff_of_true ?_ rfl
    intro c hc
    obtain ⟨plugin, -, hc⟩ := List.mem_flatMap.1 hc
    exact clear_toMain s plugin _ c hc
  | _ => exact iff_of_true clear_nil rfl

/-- In every sequence of events no command of the block list is passed on, if and only if no page asks the extension route for
one. -/
theorem block_list_complete_iff (env : BinderEnv) (s : Binder) (es : List BinderEvent) :
    (∀ k e, es[k]? = some e → (s.afterEvents env (es.take k)).Clear ((s.afterEvents env (es.take k)).handle env e).2) ↔
      ∀ k e, es[k]? = some e → (s.afterEvents env (es.take k)).asksBlocked env e = false := by
  constructor
  · intro h k e he
    exact (clear_handle e).1 (h k e he)
  · intro h k e he
    exact (clear_handle e).2 (h k e he)

def pausePayload : JsonValue := .obj [(utf8 "id", .num 1), (utf8 "method", .str (utf8 "Debugger.pause"))]

def pauseCall : BinderEvent :=
  .bindingCalled ⟨extensionBindingName, some (utf8 "pause"), some (utf8 "page"), some 1⟩ ⟨true, none⟩ ⟨true, none⟩

theorem extension_passes_pause :
    ¬ Binder.initial.Clear (Binder.initial.handle ⟨fun _ => .ok pausePayload, ⟨id, fun _ => [], id⟩⟩ pauseCall).2 := by
  rw [clear_handle]
  decide +kernel

end Binder

end CloudeLoader.Ffi
