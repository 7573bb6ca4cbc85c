import CloudeLoader.Ipc.Framing
import CloudeLoader.Lib.MessagePack
import CloudeLoader.LuaHost.Evaluate

/-!
# Calls of the backend (`core_ipc.cc`, `lua_interop.cc`, `backend_mgr.cc`)

A call of the frontend goes to the host of the plugin as a frame, the host calls a function of the plugin, and its reply
comes back as a frame.
-/

namespace CloudeLoader.Engine

open LuaHost LuaState Decimal

variable {L : LuaState}

/-- The host of a plugin, at its event loop: the interpreter, the number of the next request, and the text of the exception that
a call throws when the connection breaks. -/
structure PluginHost where
  lua : LuaState
  nextId : ℤ
  broken : Bytes

/-- What `ipc_main` has: the running plugins and the methods of the core, each as long as its owner exists, and what it needs of
the libraries. -/
structure IpcMain where
  widths : MessagePack.Widths
  doubles : Doubles
  processes : Option (Bytes → Option PluginHost)
  core : Option (Bytes → JsonValue → Except Bytes JsonValue)

structure VmCallResult where
  success : Bool
  value : JsonValue

/-! ### Frames -/

def request (id : ℤ) (method : String) (params : JsonValue) : JsonValue :=
  .obj [(utf8 "id", .num id), (utf8 "method", .str (utf8 method)), (utf8 "params", params), (utf8 "type", .str (utf8 "req"))]

def response (id : ℤ) (result : JsonValue) : JsonValue :=
  .obj [(utf8 "id", .num id), (utf8 "result", result), (utf8 "type", .str (utf8 "res"))]

/-- The message is not longer than `read_frame` allows. -/
def fits (w : MessagePack.Widths) (msg : JsonValue) : Bool := MessagePack.size w msg ≤ Ipc.maxFrameSize

def PluginHost.call (w : MessagePack.Widths) (host : PluginHost) (script : JsonValue) : Except Bytes JsonValue :=
  let result := host.lua.handleEvaluate script
  if fits w (request host.nextId "evaluate" script) && fits w (response host.nextId result) then .ok result
  else .error host.broken

namespace IpcMain

def evaluate (w : MessagePack.Widths) (processes : Bytes → Option PluginHost) (pluginName : Bytes) (script : JsonValue) :
    JsonValue :=
  match processes pluginName with
  | none => failure (utf8 "plugin not running: " ++ pluginName)
  | some host =>
    match host.call w script with
    | .ok result => result
    | .error what => failure what

def luaEvaluate (s : IpcMain) (pluginName : Bytes) (script : JsonValue) : Except Bytes VmCallResult :=
  match s.processes with
  | none => .ok ⟨false, .str (utf8 "backend_manager is no longer available")⟩
  | some processes =>
    let result := evaluate s.widths processes pluginName script
    if result.field? (utf8 "success") = some (.bool true) then
      match result.field? (utf8 "value") with
      | some (.str text) => .ok ⟨true, (JsonText.parse s.doubles text).getD (.str text)⟩
      | some (.bool b) => .ok ⟨true, .bool b⟩
      | some (.num q) => .ok ⟨true, .num (if isInteger q then (q.num.bmod (2 ^ 64) : ℤ) else q)⟩
      | some (.nonFinite bits) => .ok ⟨true, .nonFinite bits⟩
      | _ => .ok ⟨true, .null⟩
    else
      match result.valueOf JsonValue.getString (utf8 "error") (utf8 "unknown error from child process") with
      | .error e => .error e
      | .ok error => .ok ⟨false, .str error⟩

def handleCoreServerMethod (s : IpcMain) (data : JsonValue) : VmCallResult :=
  match s.core with
  | none => ⟨false, .str (utf8 "cloude_backend is no longer available")⟩
  | some ipcMessageHdlr =>
    match data.atOf JsonValue.getString (utf8 "methodName") with
    | .error e => ⟨false, .str e⟩
    | .ok functionName =>
      match ipcMessageHdlr functionName ((data.field? (utf8 "argumentList")).getD (.obj [])) with
      | .error e => ⟨false, .str e⟩
      | .ok result => ⟨true, result⟩

def answer (response : VmCallResult) (pluginName : Bytes) : JsonValue :=
  .obj [(utf8 "success", .bool response.success), (utf8 "pluginName", .str pluginName), (utf8 "returnJson", response.value)]

def callServerMethod (s : IpcMain) (call : JsonValue) : Except Bytes JsonValue :=
  let data := (call.field? (utf8 "data")).getD .null
  match data.field? (utf8 "pluginName") with
  | none =>
    .ok (.obj [(utf8 "success", .bool false), (utf8 "returnJson", .str (utf8 "no plugin backend specified"))])
  | some name =>
    match name.getString with
    | .error e => .error e
    | .ok pluginName =>
      if pluginName = utf8 "core" then .ok (answer (s.handleCoreServerMethod data) pluginName)
      else
        match s.luaEvaluate pluginName data with
        | .error e => .error e
        | .ok response => .ok (answer response pluginName)

end IpcMain

/-! ### Calls with one scalar -/

def callData (pluginName methodName : Bytes) (argumentList : List JsonValue) : JsonValue :=
  .obj [(utf8 "argumentList", .arr argumentList), (utf8 "methodName", .str methodName), (utf8 "pluginName", .str pluginName)]

def frontendCall (callId : ℕ) (caller pluginName methodName : Bytes) (argumentList : List JsonValue) : JsonValue :=
  .obj [(utf8 "call_id", .num callId), (utf8 "caller", .str caller), (utf8 "data", callData pluginName methodName argumentList),
    (utf8 "id", .num 0)]

inductive Scalar
  | bool (b : Bool)
  | int (n : ℤ) (h : n.natAbs < 2 ^ 53)
  | str (s : Bytes) (h : 0 ∉ s)

def Scalar.toJson : Scalar → JsonValue
  | .bool b => .bool b
  | .int n _ => .num n
  | .str s _ => .str s

/-- The name is that of a function that returns its argument; a method gets its table before. -/
def Echoes (L : LuaState) (methodName : Bytes) : Prop :=
  ∃ f self, L.resolve methodName = .ok (f, self) ∧ ∀ x, L.call f (self ++ [x]) = .ok x

def Scalar.echo (L : LuaState) : Scalar → JsonValue
  | .bool b => .bool b
  | .int n _ => .str (general 14 (L.toInteger n))
  | .str s _ => .str s

def Scalar.echoType : Scalar → String
  | .bool _ => "boolean"
  | _ => "string"

theorem readResult_push (L : LuaState) (v : Scalar) :
    L.readResult (L.push v.toJson) = reply (v.echo L) v.echoType := by
  cases v with
  | bool b => rfl
  | int n h =>
    rw [Scalar.toJson, push_int h, readResult_int (toInteger_bounds h)]
    rfl
  | str s h =>
    simp only [Scalar.toJson, push, readResult, text?, Scalar.echo, Scalar.echoType,
      cString_of_notMem h]

theorem handleEvaluate_echo {methodName} (h : Echoes L methodName) (pluginName : Bytes) (v : Scalar) :
    L.handleEvaluate (callData pluginName methodName [v.toJson]) = reply (v.echo L) v.echoType := by
  obtain ⟨f, self, hres, hcall⟩ := h
  have hmet : (callData pluginName methodName [v.toJson]).field? (utf8 "methodName") = some (.str methodName) := rfl
  have hargs : argValues (callData pluginName methodName [v.toJson]) = [v.toJson] := rfl
  simp only [handleEvaluate, hmet, hres, hargs, List.map_cons, List.map_nil, hcall, readResult_push]

/-! ### Sizes -/

section Sizes

open MessagePack

variable {w : Widths} {id : ℤ}

theorem size_request (params : JsonValue) : size w (request id "evaluate" params) = 36 + w.number id + size w params := by
  have h : textSize (utf8 "id") = 3 ∧ textSize (utf8 "method") = 7 ∧ textSize (utf8 "evaluate") = 9 ∧ textSize (utf8 "params") = 7 ∧
      textSize (utf8 "type") = 5 ∧ textSize (utf8 "req") = 4 := by decide
  obtain ⟨h1, h2, h3, h4, h5, h6⟩ := h
  simp only [request, size, sizeFields, h1, h2, h3, h4, h5, h6, List.length_cons, List.length_nil, head,
    Nat.reduceAdd, Nat.reduceLT, reduceIte]
  omega

theorem size_reply (value : JsonValue) (type : String) :
    size w (response id (reply value type)) = 47 + w.number id + size w value + textSize (utf8 type) := by
  have h : textSize (utf8 "id") = 3 ∧ textSize (utf8 "result") = 7 ∧ textSize (utf8 "success") = 8 ∧ textSize (utf8 "value") = 6 ∧
      textSize (utf8 "value_type") = 11 ∧ textSize (utf8 "type") = 5 ∧ textSize (utf8 "res") = 4 := by decide
  obtain ⟨h1, h2, h3, h4, h5, h6, h7⟩ := h
  simp only [response, reply, size, sizeFields, h1, h2, h3, h4, h5, h6, h7, List.length_cons, List.length_nil, head,
    Nat.reduceAdd, Nat.reduceLT, reduceIte]
  omega

theorem size_callData (pluginName methodName : Bytes) (v : JsonValue) :
    size w (callData pluginName methodName [v]) = 37 + size w v + textSize methodName + textSize pluginName := by
  have h : textSize (utf8 "argumentList") = 13 ∧ textSize (utf8 "methodName") = 11 ∧ textSize (utf8 "pluginName") = 11 := by decide
  obtain ⟨h1, h2, h3⟩ := h
  simp only [callData, size, sizeFields, sizeList, h1, h2, h3, List.length_cons, List.length_nil, head,
    Nat.reduceAdd, Nat.reduceLT, reduceIte]
  omega

theorem fits_reply {pluginName methodName} (v : Scalar)
    (h : fits w (request id "evaluate" (callData pluginName methodName [v.toJson])) = true) :
    fits w (response id (reply (v.echo L) v.echoType)) = true := by
  rw [fits, decide_eq_true_eq, size_request, size_callData] at h
  rw [fits, decide_eq_true_eq, size_reply]
  have htype : textSize (utf8 v.echoType) ≤ 8 := by
    have hcas : v.echoType = "boolean" ∨ v.echoType = "string" := by cases v <;> simp [Scalar.echoType]
    rcases hcas with h | h <;> rw [h] <;> decide
  cases v with
  | bool b =>
    simp only [Scalar.echo, Scalar.toJson, size] at h ⊢
    omega
  | int n hn =>
    have hlen := length_general_le (p := 14) (z := L.toInteger n) (by decide)
      (Nat.lt_trans (toInteger_bounds hn) (by decide))
    have hsize := (textSize_bounds (general 14 (L.toInteger n))).2
    have hid := w.number_le id
    simp only [Scalar.echo, size, Ipc.maxFrameSize]
    omega
  | str s hs =>
    simp only [Scalar.echo, Scalar.toJson, size] at h ⊢
    omega

end Sizes

/-! ### What comes back -/

def Scalar.returned (d : Doubles) (L : LuaState) : Scalar → JsonValue
  | .bool b => .bool b
  | .int n _ => .num (roundedInt 14 (L.toInteger n))
  | .str text _ => (JsonText.parse d text).getD (.str text)

/-- A whole number is not cut off by `lua_Integer`, and its digits after the fourteenth are zeros.  A string is no JSON text. -/
def Scalar.Survives (d : Doubles) (L : LuaState) : Scalar → Prop
  | .bool _ => True
  | .int n _ => L.toInteger n = n ∧ (n.natAbs < 10 ^ 14 ∨ unit 14 n.natAbs ∣ n.natAbs)
  | .str text _ => JsonText.parse d text = none

instance Scalar.decidableSurvives (d : Doubles) (L : LuaState) : (v : Scalar) → Decidable (v.Survives d L)
  | .bool _ => inferInstanceAs (Decidable True)
  | .int n _ =>
    inferInstanceAs (Decidable (L.toInteger n = n ∧ (n.natAbs < 10 ^ 14 ∨ unit 14 n.natAbs ∣ n.natAbs)))
  | .str text _ => inferInstanceAs (Decidable (JsonText.parse d text = none))

theorem roundedInt_toInteger_eq_iff {n : ℤ} (h : n.natAbs < 2 ^ 53) :
    roundedInt 14 (L.toInteger n) = n ↔
      L.toInteger n = n ∧ (n.natAbs < 10 ^ 14 ∨ unit 14 n.natAbs ∣ n.natAbs) := by
  rw [← rounded_eq_self_iff, ← roundedInt_eq_self_iff]
  constructor
  · intro hrnd
    have hself : L.toInteger n = n := by
      cases hwide : L.wide with
      | true =>
        simp only [toInteger, hwide, if_true, Int.bmod_def]
        omega
      | false =>
        -- a number of 32 bits has fewer than fourteen digits
        have hsml : (L.toInteger n).natAbs < 10 ^ 14 := by
          simp only [toInteger, hwide, Bool.false_eq_true, if_false, Int.bmod_def]
          omega
        rwa [roundedInt_eq_self_iff.2 (rounded_eq_self_iff.2 (.inl hsml))] at hrnd
    exact ⟨hself, by rwa [hself] at hrnd⟩
  · rintro ⟨hself, hrnd⟩
    rw [hself]
    exact hrnd

theorem Scalar.returned_eq_iff {d} (v : Scalar) : v.returned d L = v.toJson ↔ v.Survives d L := by
  cases v with
  | bool b => exact iff_of_true rfl trivial
  | int n h =>
    rw [Scalar.returned, Scalar.toJson, JsonValue.num.injEq, Int.cast_inj, roundedInt_toInteger_eq_iff h]
    rfl
  | str text h =>
    rw [Scalar.returned, Scalar.toJson, Scalar.Survives]
    cases hpar : JsonText.parse d text with
    | none => simp
    | some j =>
      refine iff_of_false ?_ (by simp)
      rintro rfl
      exact absurd (JsonText.length_lt_of_parse hpar) (Nat.lt_irrefl _)

section Calls

variable {s : IpcMain} {processes : Bytes → Option PluginHost} {host : PluginHost} {pluginName methodName : Bytes}

theorem luaEvaluate_echo (hprc : s.processes = some processes) (hhost : processes pluginName = some host)
    (hecho : Echoes host.lua methodName) (v : Scalar) :
    s.luaEvaluate pluginName (callData pluginName methodName [v.toJson]) =
      .ok (if fits s.widths (request host.nextId "evaluate" (callData pluginName methodName [v.toJson])) then
        ⟨true, v.returned s.doubles host.lua⟩ else ⟨false, .str host.broken⟩) := by
  simp only [IpcMain.luaEvaluate, hprc, IpcMain.evaluate, hhost, PluginHost.call, handleEvaluate_echo hecho]
  by_cases hfits : fits s.widths (request host.nextId "evaluate" (callData pluginName methodName [v.toJson])) = true
  · have hsuc : (reply (v.echo host.lua) v.echoType).field? (utf8 "success") = some (.bool true) := rfl
    have hval : (reply (v.echo host.lua) v.echoType).field? (utf8 "value") = some (v.echo host.lua) := rfl
    simp only [hfits, fits_reply v hfits, Bool.and_self, if_true, hsuc, hval]
    cases v with
    | bool b => rfl
    | int n h =>
      have hpar := JsonText.parse_general (p := 14) (d := s.doubles) (by decide)
        (Nat.le_of_lt (toInteger_bounds (L := host.lua) h))
      simp only [Scalar.echo, Scalar.returned, hpar, Option.getD_some]
    | str text h => rfl
  · simp only [hfits, Bool.false_and, Bool.false_eq_true, if_false]
    rfl

/-- A scalar comes back unchanged from a function that returns its argument if the request fits into a frame and the scalar
survives. -/
theorem scalar_preserved_iff (callId : ℕ) (caller : Bytes) (hcore : pluginName ≠ utf8 "core")
    (hprocesses : s.processes = some processes) (hhost : processes pluginName = some host)
    (hecho : Echoes host.lua methodName) (v : Scalar) :
    s.callServerMethod (frontendCall callId caller pluginName methodName [v.toJson]) =
        .ok (IpcMain.answer ⟨true, v.toJson⟩ pluginName) ↔
      fits s.widths (request host.nextId "evaluate" (callData pluginName methodName [v.toJson])) = true ∧
        v.Survives s.doubles host.lua := by
  have hdata : ((frontendCall callId caller pluginName methodName [v.toJson]).field? (utf8 "data")).getD .null =
      callData pluginName methodName [v.toJson] := rfl
  have hname : (callData pluginName methodName [v.toJson]).field? (utf8 "pluginName") = some (.str pluginName) := rfl
  simp only [IpcMain.callServerMethod, hdata, hname, JsonValue.getString, if_neg hcore,
    luaEvaluate_echo hprocesses hhost hecho v]
  by_cases hfits : fits s.widths (request host.nextId "evaluate" (callData pluginName methodName [v.toJson])) = true
  · simp only [hfits, if_true, true_and, ← Scalar.returned_eq_iff, IpcMain.answer, Except.ok.injEq, JsonValue.obj.injEq,
      List.cons.injEq, Prod.mk.injEq, and_true]
  · simp only [hfits, if_false, false_and, iff_false, Bool.false_eq_true]
    simp [IpcMain.answer]

end Calls

/-! ### A plugin with one function -/

def echoState : LuaState where
  wide := true
  doubles := ⟨some, fun _ _ _ _ => rfl⟩
  numberText
    | .finite q => general 14 q.num
    | .infinite negative => utf8 (if negative then "-inf" else "inf")
    | .nan => utf8 "nan"
  numberText_int _ _ := rfl
  global name := if name = utf8 "echo" then .function 0 else .nil
  field _ _ := .nil
  call _ args := .ok (args.headD .nil)

def wideNumbers : MessagePack.Widths := ⟨fun _ => 9, fun _ => Nat.le_refl 9⟩

def echoMain : IpcMain where
  widths := wideNumbers
  doubles := ⟨some, fun _ _ _ _ => rfl⟩
  processes := some fun name => if name = utf8 "echoes" then some ⟨echoState, 0, utf8 "child disconnected: echoes"⟩ else none
  core := none

theorem echoes_echoState : Echoes echoState (utf8 "echo") := ⟨0, [], rfl, fun _ => rfl⟩

theorem scalar_preserved_text :
    echoMain.callServerMethod (frontendCall 1 [] (utf8 "echoes") (utf8 "echo") [.str (utf8 "hello")]) =
      .ok (IpcMain.answer ⟨true, .str (utf8 "hello")⟩ (utf8 "echoes")) :=
  (scalar_preserved_iff 1 [] (by decide) rfl rfl echoes_echoState (.str (utf8 "hello") (by decide))).2
    ⟨by decide, by decide⟩

theorem text_becomes_boolean :
    echoMain.callServerMethod (frontendCall 1 [] (utf8 "echoes") (utf8 "echo") [.str (utf8 "true")]) ≠
      .ok (IpcMain.answer ⟨true, .str (utf8 "true")⟩ (utf8 "echoes")) := by
  have h : echoMain.callServerMethod (frontendCall 1 [] (utf8 "echoes") (utf8 "echo") [.str (utf8 "true")]) =
      .ok (IpcMain.answer ⟨true, .bool true⟩ (utf8 "echoes")) := by decide +kernel
  decide

end CloudeLoader.Engine
