import CloudeLoader.Engine.Encoding
import CloudeLoader.Lib.JsonValue

/-!
# Answers to frontend calls (`ffi_binder.cc`, `cloude-api.ts`)

The SDK sends a call through a binding.  `binding_call_hdlr` has it processed, records it, and evaluates a script in the
page that passes the answer on.
-/

namespace CloudeLoader.Ffi

open JsonValue

open Engine (Bytes utf8)

/-- What becomes of an evaluation: whether the page executes it, and the text of the exception if waiting for it throws. -/
structure Delivery where
  executed : Bool
  error : Option Bytes

structure Evaluation where
  requestId : Int
  response : JsonValue
  delivery : Delivery

/-- `process_message`, the text of the exception when a value cannot be written, and what the page makes of the text of a value that
stands in a script. -/
structure CallEnv where
  processMessage : JsonValue → JsonValue
  dumpError : JsonValue → Bytes
  evaluate : JsonValue → JsonValue

def callIdKey : Bytes := utf8 "call_id"
def dataKey : Bytes := utf8 "data"
def pluginNameKey : Bytes := utf8 "pluginName"
def methodNameKey : Bytes := utf8 "methodName"

def frontEndLoaded : Int := 1

def failure (what : Bytes) : JsonValue := .obj [(utf8 "returnJson", .str what), (utf8 "success", .bool false)]

def writeRecord (env : CallEnv) (payload data result : JsonValue) : Except Bytes Unit :=
  if data.dump = none then .error (env.dumpError data)
  else if result.dump = none then .error (env.dumpError result)
  else (payload.valueOf getString (utf8 "caller") []).map fun _ => ()

def record (env : CallEnv) (payload result : JsonValue) : Except Bytes Unit := do
  let msgId ← payload.valueOf getInt (utf8 "id") (-1)
  let data ← payload.valueOf .ok dataKey (.obj [])
  let plugin ← data.valueOf getString pluginNameKey []
  let _ ← data.valueOf getString methodNameKey []
  if plugin = [] ∨ msgId = frontEndLoaded then return () else writeRecord env payload data result

def callbackIntoJs (env : CallEnv) (requestId : Int) (result : JsonValue) (d : Delivery) : List Evaluation × Option Bytes :=
  match result.dump with
  | none => ([], some (env.dumpError result))
  | some text => ([⟨requestId, env.evaluate text, d⟩], d.error)

def answer (env : CallEnv) (payload : JsonValue) (d : Delivery) : List Evaluation × Option Bytes :=
  match payload.field? callIdKey with
  | none => ([], some (utf8 "binding payload missing 'call_id' field"))
  | some callId =>
    match callId.getInt with
    | .error what => ([], some what)
    | .ok requestId =>
      let result := env.processMessage payload
      match record env payload result with
      | .error what => ([], some what)
      | .ok () => callbackIntoJs env requestId result d

/-- `binding_call_hdlr` for the binding of the SDK; `none` is a payload that cannot be parsed.  The second delivery is that of
the failure. -/
def bindingCall (env : CallEnv) (payload : Option JsonValue) (d d' : Delivery) : List Evaluation :=
  match payload with
  | none => []
  | some payload =>
    let (issued, error) := answer env payload d
    match error, payload.field? callIdKey with
    | some what, some (.num n) =>
      match getInt (.num n) with
      | .ok requestId => issued ++ (callbackIntoJs env requestId (failure what) d').1
      | .error _ => issued
    | _, _ => issued

/-! ### Calls of the SDK -/

/-- The name of a method is a string or a number; a number that is not finite becomes `null`. -/
inductive MethodName
  | text (s : String)
  | number (n : Option ℚ)

def MethodName.toJson : MethodName → JsonValue
  | .text s => .str (utf8 s)
  | .number (some n) => .num n
  | .number none => .null

inductive IpcMethod
  | callServerMethod
  | frontEndLoaded
  | callFrontendMethod
  | pluginConfig

def IpcMethod.toNat : IpcMethod → Nat
  | .callServerMethod => 0
  | .frontEndLoaded => 1
  | .callFrontendMethod => 2
  | .pluginConfig => 3

structure SdkCall where
  method : IpcMethod
  callId : Nat
  caller : String
  pluginName : String
  methodName : MethodName
  argumentList : Option JsonValue
  textual : ∀ a ∈ argumentList, a.isTextual = true

namespace SdkCall

def data (c : SdkCall) : JsonValue :=
  .obj ((c.argumentList.toList.map fun a => (utf8 "argumentList", a)) ++
    [(methodNameKey, c.methodName.toJson), (pluginNameKey, .str (utf8 c.pluginName))])

def payload (c : SdkCall) : JsonValue :=
  .obj [(callIdKey, .num c.callId), (utf8 "caller", .str (utf8 c.caller)), (dataKey, c.data), (utf8 "id", .num c.method.toNat)]

def requestId (c : SdkCall) : Int := (c.callId : Int).bmod (2 ^ 32)

variable (env : CallEnv) (c : SdkCall) (result : JsonValue)

theorem getInt_natCast (n : Nat) : getInt (.num n) = .ok ((n : Int).bmod (2 ^ 32)) := by
  simp [getInt]

theorem getInt_callId : getInt (.num c.callId) = .ok c.requestId := getInt_natCast c.callId

theorem field?_data_pluginName : c.data.field? pluginNameKey = some (.str (utf8 c.pluginName)) := by
  unfold data
  cases c.argumentList <;> rfl

theorem field?_data_methodName : c.data.field? methodNameKey = some c.methodName.toJson := by
  unfold data
  cases c.argumentList <;> rfl

theorem isTextual_data : c.data.isTextual = true := by
  have hmet : c.methodName.toJson.isTextual = true := by
    cases c.methodName with
    | text s => exact Engine.isUtf8_utf8 s
    | number n => cases n <;> rfl
  have hplg : (str (utf8 c.pluginName)).isTextual = true := Engine.isUtf8_utf8 c.pluginName
  have hrest : everywhereFields textLeaf isText
      [(methodNameKey, c.methodName.toJson), (pluginNameKey, .str (utf8 c.pluginName))] = true := by
    simp only [everywhereFields, Bool.and_eq_true, and_true]
    exact ⟨Engine.isUtf8_utf8 "methodName", hmet, Engine.isUtf8_utf8 "pluginName", hplg⟩
  unfold data
  cases hargs : c.argumentList with
  | none => exact hrest
  | some a =>
    show everywhereFields textLeaf isText ((utf8 "argumentList", a) :: _) = true
    simp only [everywhereFields, Bool.and_eq_true]
    exact ⟨Engine.isUtf8_utf8 "argumentList", c.textual a hargs, by simpa using hrest⟩

theorem record_payload :
    record env c.payload result = c.methodName.toJson.getString.bind fun _ =>
      if utf8 c.pluginName = [] ∨ (c.method.toNat : Int).bmod (2 ^ 32) = frontEndLoaded then .ok ()
      else writeRecord env c.payload c.data result := by
  have hid : c.payload.valueOf getInt (utf8 "id") (-1) = .ok ((c.method.toNat : Int).bmod (2 ^ 32)) :=
    getInt_natCast c.method.toNat
  have hdata : c.payload.valueOf .ok dataKey (.obj []) = .ok c.data := rfl
  have hplg : c.data.valueOf getString pluginNameKey [] = .ok (utf8 c.pluginName) := by
    simp only [valueOf, field?_data_pluginName]
    rfl
  have hmet : c.data.valueOf getString methodNameKey [] = c.methodName.toJson.getString := by
    simp only [valueOf, field?_data_methodName]
    rfl
  simp only [record, hid, hdata, bind, Except.bind, hplg, hmet]
  rfl

theorem writeRecord_payload :
    writeRecord env c.payload c.data result = if result.dump = none then .error (env.dumpError result) else .ok () := by
  have hdump : c.data.dump ≠ none := by
    simp [dump, isTextual_data]
  rw [writeRecord, if_neg hdump]
  rfl

theorem answer_text {name} (hname : c.methodName = .text name) (d : Delivery) :
    answer env c.payload d = callbackIntoJs env c.requestId (env.processMessage c.payload) d := by
  have hid : c.payload.field? callIdKey = some (.num c.callId) := rfl
  have hstr : c.methodName.toJson.getString = .ok (utf8 name) := by
    rw [hname]
    rfl
  simp only [answer, hid, getInt_natCast, record_payload, hstr, Except.bind, writeRecord_payload]
  by_cases hskip : utf8 c.pluginName = [] ∨ (c.method.toNat : Int).bmod (2 ^ 32) = frontEndLoaded
  · simp only [if_pos hskip]
    rfl
  · simp only [if_neg hskip]
    cases hdump : (env.processMessage c.payload).dump with
    | none => simp [callbackIntoJs, hdump]
    | some text =>
      simp only [reduceCtorEq, if_false]
      rfl

theorem answer_number {n} (hname : c.methodName = .number n) (d : Delivery) : answer env c.payload d =
      ([], some (typeError 302 ("type must be string, but is " ++ (MethodName.number n).toJson.typeName))) := by
  have hid : c.payload.field? callIdKey = some (.num c.callId) := rfl
  have hstr : c.methodName.toJson.getString =
      .error (typeError 302 ("type must be string, but is " ++ (MethodName.number n).toJson.typeName)) := by
    rw [hname]
    cases n <;> rfl
  simp only [answer, hid, getInt_natCast, record_payload, hstr, Except.bind]

/-! ### What the page executes -/

def caught (d : Delivery) : Option Bytes :=
  match c.methodName with
  | .text _ =>
    if (env.processMessage c.payload).dump = none then some (env.dumpError (env.processMessage c.payload)) else d.error
  | .number n => some (typeError 302 ("type must be string, but is " ++ (MethodName.number n).toJson.typeName))

/-- What the page gets for the answer, if it executes it. -/
def answered (d : Delivery) : Option JsonValue :=
  match c.methodName with
  | .text _ => if d.executed then (env.processMessage c.payload).dump.map env.evaluate else none
  | .number _ => none

/-- What the page gets for the failure, if it executes it. -/
def reported (d d' : Delivery) : Option JsonValue :=
  if d'.executed then ((c.caught env d).bind fun what => (failure what).dump).map env.evaluate else none

theorem answer_error (d : Delivery) : (answer env c.payload d).2 = c.caught env d := by
  cases hname : c.methodName with
  | text name =>
    rw [answer_text env c hname, callbackIntoJs, caught, hname]
    cases (env.processMessage c.payload).dump <;> rfl
  | number n => rw [answer_number env c hname, caught, hname]

end SdkCall

def executedFor (n : Int) (evaluations : List Evaluation) : List JsonValue :=
  (evaluations.filter fun e => e.requestId = n && e.delivery.executed).map (·.response)

theorem executedFor_append (n : Int) (es fs : List Evaluation) :
    executedFor n (es ++ fs) = executedFor n es ++ executedFor n fs := by
  simp [executedFor]

theorem executedFor_callback (env : CallEnv) (n requestId : Int) (result : JsonValue) (d : Delivery) :
    executedFor n (callbackIntoJs env requestId result d).1 =
      if requestId = n ∧ d.executed = true then (result.dump.map env.evaluate).toList else [] := by
  unfold callbackIntoJs
  cases result.dump with
  | none => simp [executedFor]
  | some text => by_cases hid : requestId = n <;> cases hd : d.executed <;> simp [executedFor, hid, hd]

/-- The page executes one evaluation at most for the call; it carries the answer, and a call that has succeeded is not reported
as failed. -/
def AnsweredOnce (n : Int) (result : JsonValue) (evaluations : List Evaluation) : Prop :=
  (executedFor n evaluations).length ≤ 1 ∧ (∀ v ∈ executedFor n evaluations, v = result) ∧
    (result.field? (utf8 "success") = some (.bool true) →
      ∀ v ∈ executedFor n evaluations, v.field? (utf8 "success") ≠ some (.bool false))

namespace SdkCall

variable (env : CallEnv) (c : SdkCall)

theorem executedFor_answer (d : Delivery) :
    executedFor c.callId (answer env c.payload d).1 = if c.requestId = c.callId then (c.answered env d).toList else [] := by
  cases hname : c.methodName with
  | text name =>
    rw [answer_text env c hname, executedFor_callback, answered, hname]
    by_cases hn : c.requestId = c.callId <;> cases d.executed <;> simp [hn]
  | number n =>
    rw [answer_number env c hname, answered, hname]
    simp [executedFor]

theorem executedFor_bindingCall (d d' : Delivery) :
    executedFor c.callId (bindingCall env (some c.payload) d d') =
      if c.requestId = c.callId then (c.answered env d).toList ++ (c.reported env d d').toList else [] := by
  have hid : c.payload.field? callIdKey = some (.num c.callId) := rfl
  unfold bindingCall reported
  dsimp only
  rw [answer_error, hid]
  cases c.caught env d with
  | none =>
    rw [executedFor_answer]
    simp
  | some what =>
    simp only [getInt_callId]
    rw [executedFor_append, executedFor_answer, executedFor_callback]
    by_cases hn : c.requestId = c.callId <;> cases d'.executed <;> simp [hn]

/-- The page reads the text of the answer as the answer.  It executes no failure, or it executes no answer and the failure is what
`process_message` has returned. -/
def onceWhen (parses : Bool) (d d' : Delivery) : Prop :=
  parses = false ∨ c.requestId ≠ c.callId ∨
    (∀ v ∈ c.answered env d, v = env.processMessage c.payload) ∧
      ∀ v ∈ c.reported env d d', v = env.processMessage c.payload ∧ c.answered env d = none

theorem answeredOnce_iff {n : Int} {result evaluations} {a r : Option JsonValue}
    (h : executedFor n evaluations = a.toList ++ r.toList) :
    AnsweredOnce n result evaluations ↔ (∀ v ∈ a, v = result) ∧ ∀ v ∈ r, v = result ∧ a = none := by
  have hsuc : (∀ v ∈ executedFor n evaluations, v = result) → result.field? (utf8 "success") = some (.bool true) →
      ∀ v ∈ executedFor n evaluations, v.field? (utf8 "success") ≠ some (.bool false) := by
    intro hall hsuc v hv
    rw [hall v hv, hsuc]
    simp
  unfold AnsweredOnce
  rw [and_iff_left_of_imp (fun hall => hsuc hall)]
  cases a <;> cases r <;> simp [h]

/-- A call is answered once and with what `process_message` returned, if and only if it cannot be parsed, its number has more
than 32 bits, or the page gets the answer as it is and executes no failure besides it. -/
theorem answered_once_iff (parses : Bool) (d d' : Delivery) :
    AnsweredOnce c.callId (env.processMessage c.payload) (bindingCall env (if parses then some c.payload else none) d d') ↔
      c.onceWhen env parses d d' := by
  unfold onceWhen
  cases parses with
  | false => exact iff_of_true ⟨by simp [bindingCall, executedFor], by simp [bindingCall, executedFor],
      by simp [bindingCall, executedFor]⟩ (.inl rfl)
  | true =>
    have hexc := c.executedFor_bindingCall env d d'
    simp only [if_true, Bool.true_eq_false, false_or]
    by_cases hn : c.requestId = c.callId
    · rw [if_pos hn] at hexc
      rw [answeredOnce_iff hexc, or_iff_right (not_not_intro hn)]
    · rw [if_neg hn] at hexc
      refine iff_of_true ((answeredOnce_iff (a := none) (r := none) hexc).2 (by simp)) (.inl hn)

def configSet : SdkCall :=
  ⟨.pluginConfig, 7, "", "theme", .number (some 1), some (.obj [(utf8 "key", .str (utf8 "dark")), (utf8 "value", .bool true)]),
    by simpa using by decide +kernel⟩

def storedEnv : CallEnv := ⟨fun _ => .obj [(utf8 "success", .bool true)], fun _ => [], id⟩

theorem configSet_reported_failed :
    ¬ AnsweredOnce configSet.callId (storedEnv.processMessage configSet.payload)
        (bindingCall storedEnv (some configSet.payload) ⟨true, none⟩ ⟨true, none⟩) := by
  rintro ⟨-, -, hfld⟩
  refine hfld (by decide +kernel) (failure (utf8 "[json.exception.type_error.302] type must be string, but is number")) ?_ ?_
  · decide +kernel
  · decide +kernel

end SdkCall

end CloudeLoader.Ffi
