import CloudeLoader.Ffi.Responses

/-!
# The bindings of a page (`ffi_binder.cc`)

A page calls one of four bindings.  The one of the SDK is answered by `binding_call_hdlr`; the extension route and the
proxy pass commands of the page on to the browser; the last one only says that the SDK is ready.
-/

namespace CloudeLoader.Ffi

open JsonValue

open Engine (Bytes utf8)

def bindingName : Bytes := utf8 "__private_cloude_ffi_do_not_use__"
def sdkReadyBindingName : Bytes := utf8 "__cloude_sdk_ready__"
def extensionBindingName : Bytes := utf8 "__cloude_extension_route__"
def cdpProxyBindingName : Bytes := utf8 "__cloude_cdp_proxy__"

def blockedCdpMethodsAlways : List Bytes :=
  ["Debugger.pause", "Emulation.setScriptExecutionDisabled", "Debugger.setBreakpointOnException", "Target.setAutoAttach",
    "Target.setDiscoverTargets", "Target.exposeDevToolsProtocol", "Network.clearBrowserCookies", "Network.clearBrowserCache",
    "Network.setCookies", "Network.deleteCookies", "Emulation.setDeviceMetricsOverride"].map utf8

def blockedCdpMethodsSharedJs : List Bytes :=
  ["Page.navigate", "Page.reload", "Page.close", "Page.crash", "Page.stopLoading", "Page.setDocumentContent",
    "Page.setBypassCSP", "Page.addScriptToEvaluateOnNewDocument", "Page.removeScriptToEvaluateOnNewDocument"].map utf8

inductive Outcome
  | result (v : JsonValue)
  | error (text : Bytes)

inductive Script
  | handleResponse (requestId : Int) (response : JsonValue)
  | handleCdpResponse (callId : Int) (outcome : Outcome)
  | settle (callbackId : Int) (outcome : Outcome)
  | cdpEvent (method : Bytes) (params : JsonValue)

/-- What is given to `send_host`: a command of a page, or one of the binder. -/
inductive Command
  | passedOn (method : Bytes) (params : JsonValue) (session : Option Bytes)
  | evaluate (session : Bytes) (contextId : Int) (script : Script)
  | addBinding (session : Bytes) (contextId : Int) (name : Bytes)

structure PluginCtx where
  mainCtxId : Int
  isolatedCtxId : Int
  mainSessionId : Bytes
  isolatedSessionId : Bytes

def PluginCtx.empty : PluginCtx := ⟨-1, -1, [], []⟩

inductive Pending
  | extension (callId : Int) (session : Bytes) (contextId : Int)
  | proxy (plugin : Bytes) (callbackId : Int) (session : Bytes) (contextId : Int)

structure Binder where
  sharedJsSession : Bytes
  pluginCtxs : Bytes → Option PluginCtx
  ctxToPlugin : Int → Option Bytes
  eventSubs : Bytes → List Bytes
  pending : List Pending

def Binder.initial : Binder := ⟨[], fun _ => none, fun _ => none, fun _ => [], []⟩

structure BindingCall where
  name : Bytes
  payload : Option Bytes
  sessionId : Option Bytes
  contextId : Option Int

/-- `json::parse`, with the text of its exception, and what the answers of the SDK need. -/
structure BinderEnv where
  parse : Bytes → Except Bytes JsonValue
  call : CallEnv

inductive BinderEvent
  | bindingCalled (call : BindingCall) (d d' : Delivery)
  | answered (k : Nat) (outcome : Outcome)
  | registerIsolatedCtx (plugin : Bytes) (contextId : Int) (session : Bytes)
  | contextCreated (session : Bytes) (contextId : Int)
  | contextDestroyed (session : Bytes) (contextId : Int)
  | cdpEvent (method : Bytes) (params : JsonValue)
  | sharedJsSession (session : Bytes)

namespace Binder

/-! ### The extension route -/

structure ExtensionRequest where
  method : Bytes
  params : JsonValue
  session : Option Bytes

def extensionRequest (payload : JsonValue) : Except Bytes ExtensionRequest := do
  let method ← payload.atOf getString (utf8 "method")
  let params ← payload.valueOf .ok (utf8 "params") (.obj [])
  match payload.field? (utf8 "sessionId") with
  | none => return ⟨method, params, none⟩
  | some v => return ⟨method, params, some (← v.getString)⟩

def extensionFailure (session : Bytes) (contextId callId : Int) (what : Bytes) : List Command :=
  if (str what).dump = none then [] else [.evaluate session contextId (.handleCdpResponse callId (.error what))]

def extensionRoute (env : BinderEnv) (s : Binder) (text session : Bytes) (contextId : Int) : Binder × List Command :=
  match env.parse text with
  | .error what => (s, extensionFailure session contextId (-1) what)
  | .ok payload =>
    match payload.atOf getInt (utf8 "id") with
    | .error what => (s, extensionFailure session contextId (-1) what)
    | .ok callId =>
      match extensionRequest payload with
      | .error what => (s, extensionFailure session contextId callId what)
      | .ok request =>
        ({ s with pending := s.pending ++ [.extension callId session contextId] },
          [.passedOn request.method request.params request.session])

/-! ### The proxy -/

inductive ProxyAction
  | cdpCall (plugin : Bytes) (callbackId : Int) (method : Bytes) (params : JsonValue) (target : Option Bytes)
  | relay (callbackId : Int) (outcome : Outcome)
  | subscribe (plugin event : Bytes)
  | unsubscribe (plugin event : Bytes)
  | nothing

def cdpCallAction (payload : JsonValue) : Except Bytes ProxyAction := do
  let plugin ← payload.valueOf getString pluginNameKey []
  let callbackId ← payload.valueOf getInt (utf8 "callbackId") (-1)
  let method ← payload.valueOf getString (utf8 "method") []
  let params ← payload.valueOf .ok (utf8 "params") (.obj [])
  let target := (payload.field? (utf8 "sessionId")).bind (·.getString.toOption)
  return if plugin = [] ∨ callbackId = -1 ∨ method = [] then .nothing else .cdpCall plugin callbackId method params target

def relayAction (payload : JsonValue) (isError : Bool) : Except Bytes ProxyAction := do
  let callbackId ← payload.valueOf getInt (utf8 "callbackId") (-1)
  if callbackId = -1 then return .nothing
  else if isError then
    let error ← payload.valueOf getString (utf8 "error") (utf8 "unknown error")
    return .relay callbackId (.error error)
  else return .relay callbackId (.result (← payload.valueOf .ok (utf8 "result") (.obj [])))

def subscribeAction (payload : JsonValue) (subscribes : Bool) : Except Bytes ProxyAction := do
  let plugin ← payload.valueOf getString pluginNameKey []
  let event ← payload.valueOf getString (utf8 "event") []
  return if plugin = [] ∨ event = [] then .nothing
    else if subscribes then .subscribe plugin event
    else .unsubscribe plugin event

def proxyAction (payload : JsonValue) : Except Bytes ProxyAction := do
  let action ← payload.valueOf getString (utf8 "action") []
  if action = utf8 "cdp_call" then cdpCallAction payload
  else if action = utf8 "relay" then relayAction payload false
  else if action = utf8 "relay_error" then relayAction payload true
  else if action = utf8 "subscribe" then subscribeAction payload true
  else if action = utf8 "unsubscribe" then subscribeAction payload false
  else return .nothing

def isBlocked (s : Binder) (method : Bytes) (session : Option Bytes) : Bool :=
  method ∈ blockedCdpMethodsAlways || session = some s.sharedJsSession && method ∈ blockedCdpMethodsSharedJs

def setMain (s : Binder) (plugin session : Bytes) (contextId : Int) : Binder :=
  let ctx := (s.pluginCtxs plugin).getD .empty
  { s with
    pluginCtxs := Function.update s.pluginCtxs plugin (some { ctx with mainCtxId := contextId, mainSessionId := session }) }

def cdpProxyCall (s : Binder) (plugin : Bytes) (callbackId : Int) (method : Bytes) (params : JsonValue) (target : Option Bytes)
    (session : Bytes) (contextId : Int) : Binder × List Command :=
  if s.isBlocked method target then
    let text := utf8 "Cloude prohibits calls to '" ++ method ++ utf8 "' for user safety"
    (s, [.evaluate session contextId (.settle callbackId (.error text))])
  else ({ s with pending := s.pending ++ [.proxy plugin callbackId session contextId] }, [.passedOn method params target])

def toMain (s : Binder) (plugin : Bytes) (script : Script) : List Command :=
  match s.pluginCtxs plugin with
  | none => []
  | some ctx => if ctx.mainCtxId = -1 then [] else [.evaluate ctx.mainSessionId ctx.mainCtxId script]

def relay (s : Binder) (contextId : Int) (callbackId : Int) (outcome : Outcome) : List Command :=
  match s.ctxToPlugin contextId with
  | none => []
  | some plugin => s.toMain plugin (.settle callbackId outcome)

def proxy (s : Binder) (session : Bytes) (contextId : Int) : ProxyAction → Binder × List Command
  | .cdpCall plugin callbackId method params target =>
    (s.setMain plugin session contextId).cdpProxyCall plugin callbackId method params target session contextId
  | .relay callbackId outcome => (s, s.relay contextId callbackId outcome)
  | .subscribe plugin event =>
    ({ s.setMain plugin session contextId with
        eventSubs := Function.update s.eventSubs event ((s.eventSubs event).insert plugin) }, [])
  | .unsubscribe plugin event =>
    ({ s with eventSubs := Function.update s.eventSubs event ((s.eventSubs event).erase plugin) }, [])
  | .nothing => (s, [])

def readProxy (env : BinderEnv) (text : Bytes) : ProxyAction :=
  match (env.parse text).bind proxyAction with
  | .ok action => action
  | .error _ => .nothing

/-! ### Events -/

def bindingCalled (env : BinderEnv) (s : Binder) (call : BindingCall) (d d' : Delivery) : Binder × List Command :=
  match call.payload, call.sessionId, call.contextId with
  | some text, some session, some contextId =>
    if call.name = extensionBindingName then s.extensionRoute env text session contextId
    else if call.name = cdpProxyBindingName then s.proxy session contextId (readProxy env text)
    else if call.name = sdkReadyBindingName then (s, [])
    else if call.name = bindingName then
      (s, (bindingCall env.call (env.parse text).toOption d d').map fun e =>
        .evaluate session contextId (.handleResponse e.requestId e.response))
    else (s, [])
  | _, _, _ => (s, [])

/-- The answer to a command goes to the context that has called, or to the main context of the plugin as it is now. -/
def deliver (s : Binder) (outcome : Outcome) : Pending → List Command
  | .extension callId session contextId => [.evaluate session contextId (.handleCdpResponse callId outcome)]
  | .proxy plugin callbackId session contextId =>
    match s.toMain plugin (.settle callbackId outcome) with
    | [] => [.evaluate session contextId (.settle callbackId outcome)]
    | commands => commands

def contextDestroyed (s : Binder) (contextId : Int) : Binder :=
  { s with
    ctxToPlugin := Function.update s.ctxToPlugin contextId none
    pluginCtxs := fun plugin =>
      (s.pluginCtxs plugin).map fun ctx => if ctx.mainCtxId = contextId then { ctx with mainCtxId := -1 } else ctx }

def registerIsolatedCtx (s : Binder) (plugin : Bytes) (contextId : Int) (session : Bytes) : Binder :=
  let ctx := (s.pluginCtxs plugin).getD .empty
  { s with
    ctxToPlugin := Function.update s.ctxToPlugin contextId (some plugin)
    pluginCtxs := Function.update s.pluginCtxs plugin
      (some { ctx with isolatedCtxId := contextId, isolatedSessionId := session }) }

def handle (env : BinderEnv) (s : Binder) : BinderEvent → Binder × List Command
  | .bindingCalled call d d' => s.bindingCalled env call d d'
  | .answered k outcome =>
    match s.pending[k]? with
    | none => (s, [])
    | some p => ({ s with pending := s.pending.eraseIdx k }, s.deliver outcome p)
  | .registerIsolatedCtx plugin contextId session => (s.registerIsolatedCtx plugin contextId session, [])
  | .contextCreated session contextId =>
    (s, [bindingName, extensionBindingName, cdpProxyBindingName, sdkReadyBindingName].map (.addBinding session contextId))
  | .contextDestroyed _ contextId => (s.contextDestroyed contextId, [])
  | .cdpEvent method params => (s, (s.eventSubs method).flatMap fun plugin => s.toMain plugin (.cdpEvent method params))
  | .sharedJsSession session => ({ s with sharedJsSession := session }, [])

def afterEvents (env : BinderEnv) (s : Binder) (es : List BinderEvent) : Binder := es.foldl (fun s e => (s.handle env e).1) s

end Binder

end CloudeLoader.Ffi
