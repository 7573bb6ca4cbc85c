import CloudeLoader.Lib.Blocking
import CloudeLoader.Lib.JsonDoc
import CloudeLoader.Lib.Transition

/-!
# The child's side of the connection (`rpc.cc`)

The child is single-threaded.  Its main loop `rpc_client::run` reads frames and calls the handler, and what the handler, a
notification handler or a coroutine does may be to call the parent.
-/

namespace CloudeLoader.LuaHost

open JsonDoc Blocking List Option

inductive Frame
  | request (id : Int) (method : String) (params : Json)
  | response (id : Int) (result : Except String Json)
  | notify (method : String) (params : Json)
  | other

/-- Code of a plugin, by what it asks of the host.  The result of a `call` is what `rpc_client::call` returns or throws. -/
inductive LuaProg
  | done (result : Except String Json)
  | call (method : String) (params : Json) (k : Except String Json → LuaProg)
  | notify (method : String) (params : Json) (k : LuaProg)
  | startCoroutine (co : LuaProg) (k : LuaProg)
  | yieldReadable (fd : Nat) (k : Except String Unit → LuaProg)

/-- What happens on the socket, where a frame is read by one of the two loops, and what the child does about it: the handler
is called for a notification, and a coroutine runs from `resumed` to `suspended`. -/
inductive IpcEvent
  | readInRun (frame : Frame)
  | readInCall (frame : Frame)
  | sent (frame : Frame)
  | dispatched (method : String) (params : Json)
  | resumed
  | suspended

/-- `rpc_client`, with the frames that are on their way to it.  `trace` is what has happened so far, and `handling` the
number of the request whose handler is running. -/
structure RpcClient where
  nextId : Int
  deferred : List (String × Json)
  coroutines : List LuaProg
  watches : List (Nat × LuaProg)
  input : List Frame
  trace : List IpcEvent
  handling : Option Int

/-- What `poll` reports: the readable descriptors among those it was given, and if there is a frame. -/
structure Poll where
  readable : List Nat
  ipc : Bool

namespace RpcClient

def log (c : RpcClient) (e : IpcEvent) : RpcClient := { c with trace := c.trace ++ [e] }

def sendMessage (frame : Frame) : Blocking RpcClient Unit := modify (·.log (.sent frame))

/-- The wait loop of `call`.  A frame that it does not expect is only printed: the texts of all frames are UTF-8 here, on any
other `msg.dump()` throws and the call ends. -/
def waitResponse (id : Int) : List Frame → Blocking RpcClient (Except String Json)
  | [] => block
  | frame :: rest => do
    modify fun c => { c with input := rest }.log (.readInCall frame)
    match frame with
    | .response i result => if i = id then pure result else waitResponse id rest
    | .notify method params => do
      modify fun c => { c with deferred := c.deferred ++ [(method, params)] }
      waitResponse id rest
    | .request _ _ _ => waitResponse id rest
    | .other => waitResponse id rest

def call (method : String) (params : Json) : Blocking RpcClient (Except String Json) := do
  let c ← get
  modify fun c => { c with nextId := int32 (c.nextId + 1) }
  sendMessage (.request c.nextId method params)
  waitResponse c.nextId c.input

def notify (method : String) (params : Json) : Blocking RpcClient Unit := sendMessage (.notify method params)

def respond (id : Int) (result : Except String Json) : Blocking RpcClient Unit := do
  sendMessage (.response id result)
  modify fun c => { c with handling := none }

def enqueueCoroutine (co : LuaProg) : Blocking RpcClient Unit :=
  modify fun c => { c with coroutines := c.coroutines ++ [co] }

def watchFd (fd : Nat) (co : LuaProg) : Blocking RpcClient Unit :=
  modify fun c => { c with watches := c.watches.filter (·.1 ≠ fd) ++ [(fd, co)] }

def exec (inCoroutine : Bool) : LuaProg → Blocking RpcClient (Except String Json)
  | .done result => pure result
  | .call method params k => do
    let result ← call method params
    exec inCoroutine (k result)
  | .notify method params k => do
    notify method params
    exec inCoroutine k
  | .startCoroutine co k => do
    enqueueCoroutine co
    exec inCoroutine k
  | .yieldReadable fd k =>
    if inCoroutine then do
      watchFd fd (k (.ok ()))
      pure (.ok .null)
    else
      exec inCoroutine
        (k (.error "cloude.yield_readable() must be called from a coroutine, not the main thread"))

def resumeCoroutine (co : LuaProg) : Blocking RpcClient Unit := do
  modify (·.log .resumed)
  let _ ← exec true co
  modify (·.log .suspended)

def drainPendingCoroutines : Nat → Blocking RpcClient Unit
  | 0 => block
  | fuel + 1 => do
    let c ← get
    if c.coroutines.isEmpty then pure ()
    else
      modify fun c => { c with coroutines := [] }
      forEach resumeCoroutine c.coroutines
      drainPendingCoroutines fuel

section Loop

variable (handler : String → Json → LuaProg)

def dispatchNotification (method : String) (params : Json) : Blocking RpcClient Unit := do
  modify (·.log (.dispatched method params))
  let _ ← exec false (handler method params)
  pure ()

def drainDeferred : Nat → Blocking RpcClient Unit
  | 0 => block
  | fuel + 1 => do
    let c ← get
    if c.deferred.isEmpty then pure ()
    else
      modify fun c => { c with deferred := [] }
      forEach (fun notif => dispatchNotification handler notif.1 notif.2) c.deferred
      drainDeferred fuel

def resumeWatch (fd : Nat) : Blocking RpcClient Unit := do
  let c ← get
  match c.watches.find? (·.1 = fd) with
  | some (_, co) => do
    modify fun c => { c with watches := c.watches.filter (·.1 ≠ fd) }
    resumeCoroutine co
  | none => pure ()

def dispatch : Frame → Blocking RpcClient Unit
  | .request id method params => do
    modify fun c => { c with handling := some id }
    let result ← exec false (handler method params)
    respond id result
  | .notify method params => dispatchNotification handler method params
  | .response _ _ => pure ()
  | .other => pure ()

def readMessage : Blocking RpcClient Frame := do
  let c ← get
  match c.input with
  | [] => block
  | frame :: rest => do
    modify fun c => { c with input := rest }.log (.readInRun frame)
    pure frame

def round (fuel : Nat) (poll : Poll) : Blocking RpcClient Unit := do
  drainPendingCoroutines fuel
  let c ← get
  forEach resumeWatch (poll.readable.filter fun fd => c.watches.any (·.1 = fd))
  if poll.ipc then
    let frame ← readMessage
    dispatch handler frame
    drainDeferred handler fuel
    drainPendingCoroutines fuel
  else
    drainPendingCoroutines fuel

def run (fuel : Nat) (polls : List Poll) : Blocking RpcClient Unit := forEach (round handler fuel) polls

end Loop

/-! ### What Lua code can do -/

section Kept

variable {P B : RpcClient → Prop}

/-- An assertion that nothing in Lua code can end: it may change the queues, send what is no response, and read frames in a
call, of which the notifications are deferred. -/
structure Kept (P : RpcClient → Prop) : Prop where
  queues (c : RpcClient) (nextId : Int) (coroutines : List LuaProg) (watches : List (Nat × LuaProg)) :
    P c → P { c with nextId := nextId, coroutines := coroutines, watches := watches }
  sent {c : RpcClient} {frame : Frame} (hf : ∀ id result, frame ≠ .response id result) : P c → P (c.log (.sent frame))
  read (c : RpcClient) (frame : Frame) (rest : List Frame) (hf : ∀ method params, frame ≠ .notify method params) :
    P c → P ({ c with input := rest }.log (.readInCall frame))
  defer (c : RpcClient) (rest : List Frame) (method : String) (params : Json) :
    P c → P { { c with input := rest }.log (.readInCall (.notify method params)) with
      deferred := c.deferred ++ [(method, params)] }

theorem Kept.waitResponse (hP : Kept P) (hB : ∀ c, P c → B c) (id : Int) (frames : List Frame) :
    Keeps P (waitResponse id frames) B := by
  induction frames with
  | nil => exact Triple.block hB
  | cons frame frames ih =>
    cases frame with
    | response i result =>
      refine Triple.bind (Q := fun _ => P) (Triple.modify fun c hc => ?_) fun _ => ?_
      · exact hP.read c _ frames (by simp) hc
      · show Triple _ (if i = id then _ else _) _ _
        split
        · exact Triple.pure fun _ hc => hc
        · exact ih
    | notify method params =>
      -- between reading and deferring the assertion is about the queue as it will be
      refine Triple.bind (Q := fun _ c => P { c with deferred := c.deferred ++ [(method, params)] })
        (Triple.modify fun c hc => ?_) fun _ => ?_
      · exact hP.defer c frames method params hc
      · exact Triple.bind (Q := fun _ => P) (Triple.modify fun _ hc => hc) fun _ => ih
    | request _ _ _ | other =>
      refine Triple.bind (Q := fun _ => P) (Triple.modify fun c hc => ?_) fun _ => ih
      exact hP.read c _ frames (by simp) hc

theorem Kept.call (hP : Kept P) (hB : ∀ c, P c → B c) (method : String) (params : Json) :
    Keeps P (call method params) B := by
  refine Triple.get_bind fun c hc => ?_
  refine Triple.bind (Q := fun _ => P) (Triple.modify ?_) fun _ => ?_
  · rintro _ rfl
    exact hP.queues _ _ _ _ hc
  · refine Triple.bind (Q := fun _ => P) (Triple.modify fun c hc => ?_) fun _ => hP.waitResponse hB _ _
    exact hP.sent (by simp) hc

theorem Kept.exec (hP : Kept P) (hB : ∀ c, P c → B c) (inCoroutine : Bool) (prog : LuaProg) :
    Keeps P (exec inCoroutine prog) B := by
  induction prog with
  | done result => exact Triple.pure fun _ hc => hc
  | call method params k ih => exact (hP.call hB method params).bind fun result => ih result
  | notify method params k ih =>
    refine Triple.bind (Q := fun _ => P) (Triple.modify fun c hc => ?_) fun _ => ih
    exact hP.sent (by simp) hc
  | startCoroutine co k _ ih =>
    refine Triple.bind (Q := fun _ => P) (Triple.modify fun c hc => ?_) fun _ => ih
    exact hP.queues _ _ _ _ hc
  | yieldReadable fd k ih =>
    show Triple _ (if inCoroutine then _ else _) _ _
    split
    · refine Triple.bind (Q := fun _ => P) (Triple.modify fun c hc => ?_) fun _ => Triple.pure fun _ hc => hc
      exact hP.queues _ _ _ _ hc
    · exact ih _

theorem drainPendingCoroutines_of (hq : ∀ c, P c → P { c with coroutines := [] }) (hB : ∀ c, P c → B c)
    (hco : ∀ co, Keeps P (resumeCoroutine co) B) (fuel : Nat) :
    Keeps P (drainPendingCoroutines fuel) B := by
  induction fuel with
  | zero => exact Triple.block hB
  | succ fuel ih =>
    refine Triple.get_bind fun c hc => ?_
    split
    · refine Triple.pure ?_
      rintro _ rfl
      exact hc
    · refine Triple.bind (Q := fun _ => P) (Triple.modify ?_) fun _ => ?_
      · rintro _ rfl
        exact hq _ hc
      · exact (Triple.forEach hco _).bind fun _ => ih

theorem resumeWatch_of (hq : ∀ c watches, P c → P { c with watches := watches })
    (hco : ∀ co, Keeps P (resumeCoroutine co) B) (fd : Nat) :
    Keeps P (resumeWatch fd) B := by
  refine Triple.get_bind fun c hc => ?_
  split
  · next co _ =>
    refine Triple.bind (Q := fun _ => P) (Triple.modify ?_) fun _ => hco co
    rintro _ rfl
    exact hq _ _ hc
  · refine Triple.pure ?_
    rintro _ rfl
    exact hc

theorem drainDeferred_of {handler : String → Json → LuaProg} (hq : ∀ c, P c → P { c with deferred := [] })
    (hB : ∀ c, P c → B c)
    (hd : ∀ method params, Keeps P (dispatchNotification handler method params) B) (fuel : Nat) :
    Keeps P (drainDeferred handler fuel) B := by
  induction fuel with
  | zero => exact Triple.block hB
  | succ fuel ih =>
    refine Triple.get_bind fun c hc => ?_
    split
    · refine Triple.pure ?_
      rintro _ rfl
      exact hc
    · refine Triple.bind (Q := fun _ => P) (Triple.modify ?_) fun _ => ?_
      · rintro _ rfl
        exact hq _ hc
      · exact (Triple.forEach (fun _ => hd _ _) _).bind fun _ => ih

end Kept

/-! ### Requests and responses -/

def owe (owed : List Int) : IpcEvent → Option (List Int)
  | .readInRun (.request id _ _) => some (id :: owed)
  | .readInCall (.request id _ _) => some (id :: owed)
  | .sent (.response id _) => if id ∈ owed then some (owed.erase id) else none
  | _ => some owed

def owed (trace : List IpcEvent) : Option (List Int) := Transition.run owe [] trace

def dropped (trace : List IpcEvent) : List Int :=
  trace.filterMap fun
    | .readInCall (.request id _ _) => some id
    | _ => none

/-- The requests that are not answered are those read by a call, and `rest`. -/
def Owes (rest : List Int) (c : RpcClient) : Prop := ∃ l, owed c.trace = some l ∧ l.Perm (dropped c.trace ++ rest)

/-- All requests are answered but the ones read by a call and the one that is being handled. -/
def Inv (c : RpcClient) : Prop := Owes c.handling.toList c

/-- The state while the handler of `h` runs, or between two handlers. -/
def During (h : Option Int) (c : RpcClient) : Prop := c.handling = h ∧ Owes h.toList c

variable {c : RpcClient} {h : Option Int} {rest : List Int} {frame : Frame}

theorem During.inv (hc : During h c) : Inv c := by
  obtain ⟨rfl, ho⟩ := hc
  exact ho

theorem owed_concat (trace : List IpcEvent) (e : IpcEvent) : owed (trace ++ [e]) = (owed trace).bind (owe · e) :=
  Transition.run_concat

theorem dropped_concat (trace : List IpcEvent) (e : IpcEvent) : dropped (trace ++ [e]) = dropped trace ++ dropped [e] :=
  filterMap_append

theorem Owes.log (hc : Owes rest c) {e} (he : ∀ l, owe l e = some l) (hd : dropped [e] = []) :
    Owes rest (c.log e) := by
  obtain ⟨l, hl, hp⟩ := hc
  refine ⟨l, ?_, ?_⟩
  · simp only [RpcClient.log, owed_concat, hl, bind_some, he]
  · simpa only [RpcClient.log, dropped_concat, hd, append_nil] using hp

theorem Owes.readInRun (hc : Owes [] c) (id : Int) (method : String) (params : Json) :
    Owes [id] (c.log (.readInRun (.request id method params))) := by
  obtain ⟨l, hl, hp⟩ := hc
  refine ⟨id :: l, ?_, ?_⟩
  · simp only [RpcClient.log, owed_concat, hl, bind_some, owe]
  · have hd : dropped [.readInRun (.request id method params)] = [] := rfl
    simp only [RpcClient.log, dropped_concat, hd, append_nil] at hp ⊢
    exact (hp.cons id).trans (perm_append_singleton id _).symm

theorem Owes.readInCall (hc : Owes rest c) (frame : Frame) : Owes rest (c.log (.readInCall frame)) := by
  cases frame with
  | request id method params =>
    obtain ⟨l, hl, hp⟩ := hc
    refine ⟨id :: l, ?_, ?_⟩
    · simp only [RpcClient.log, owed_concat, hl, bind_some, owe]
    · have hd : dropped [.readInCall (.request id method params)] = [id] := rfl
      simp only [RpcClient.log, dropped_concat, hd, append_assoc, singleton_append]
      exact (hp.cons id).trans perm_middle.symm
  | response _ _ | notify _ _ | other => exact hc.log (fun _ => rfl) rfl

theorem Owes.respond {id : Int} (hc : Owes [id] c) (result : Except String Json) :
    Owes [] (c.log (.sent (.response id result))) := by
  obtain ⟨l, hl, hp⟩ := hc
  have hmem : id ∈ l := hp.symm.subset (by simp)
  refine ⟨l.erase id, ?_, ?_⟩
  · simp only [RpcClient.log, owed_concat, hl, bind_some, owe, if_pos hmem]
  · have hd : dropped [.sent (.response id result)] = [] := rfl
    have hback : (id :: l.erase id).Perm (id :: dropped c.trace) :=
      ((perm_cons_erase hmem).symm.trans hp).trans (perm_append_singleton id _)
    simpa only [RpcClient.log, dropped_concat, hd, append_nil] using hback.cons_inv

/-! ### What the pieces of the host keep -/

theorem During.kept : Kept (During h) where
  queues _ _ _ _ hc := hc
  sent {c frame} hf hc := by
    refine ⟨hc.1, hc.2.log (fun _ => ?_) rfl⟩
    cases frame with
    | response id result => exact absurd rfl (hf id result)
    | request _ _ _ | notify _ _ | other => rfl
  read _ frame _ _ hc := ⟨hc.1, hc.2.readInCall frame⟩
  defer _ _ method params hc := ⟨hc.1, hc.2.readInCall (.notify method params)⟩

theorem log_keeps {e} (he : ∀ l, owe l e = some l) (hd : dropped [e] = []) :
    Keeps (During h) (modify (·.log e)) Inv :=
  Triple.modify fun _ hc => ⟨hc.1, hc.2.log he hd⟩

theorem exec_keeps (inCoroutine : Bool) (prog : LuaProg) :
    Keeps (During h) (exec inCoroutine prog) Inv :=
  During.kept.exec (fun _ hc => hc.inv) inCoroutine prog

theorem resumeCoroutine_keeps (co : LuaProg) : Keeps (During h) (resumeCoroutine co) Inv := by
  refine (log_keeps (fun _ => rfl) rfl).bind fun _ => ?_
  exact (exec_keeps true co).bind fun _ => log_keeps (fun _ => rfl) rfl

theorem drainPendingCoroutines_keeps (fuel : Nat) :
    Keeps (During h) (drainPendingCoroutines fuel) Inv :=
  drainPendingCoroutines_of (fun _ hc => hc) (fun _ hc => hc.inv) resumeCoroutine_keeps fuel

section Loop

variable (handler : String → Json → LuaProg)

theorem dispatchNotification_keeps (method : String) (params : Json) :
    Keeps (During h) (dispatchNotification handler method params) Inv := by
  refine (log_keeps (fun _ => rfl) rfl).bind fun _ => ?_
  exact (exec_keeps false _).bind fun _ => Triple.pure fun _ hc => hc

theorem drainDeferred_keeps (fuel : Nat) :
    Keeps (During h) (drainDeferred handler fuel) Inv :=
  drainDeferred_of (fun _ hc => hc) (fun _ hc => hc.inv) (dispatchNotification_keeps handler) fuel

theorem resumeWatch_keeps (fd : Nat) : Keeps (During h) (resumeWatch fd) Inv :=
  resumeWatch_of (fun _ _ hc => hc) resumeCoroutine_keeps fd

def Read : Frame → RpcClient → Prop
  | .request id _ _, c => c.handling = none ∧ Owes [id] c
  | _, c => During none c

theorem readMessage_reads : Triple (During none) readMessage Read Inv := by
  refine Triple.get_bind fun c hc => ?_
  split
  · refine Triple.block ?_
    rintro _ rfl
    exact hc.inv
  · next frame frames _ =>
    refine Triple.bind (Q := fun _ => Read frame) ?_ fun _ => Triple.pure fun _ hr => hr
    refine Triple.modify ?_
    rintro _ rfl
    cases frame with
    | request id method params => exact ⟨hc.1, hc.2.readInRun id method params⟩
    | response _ _ | notify _ _ | other => exact ⟨hc.1, hc.2.log (fun _ => rfl) rfl⟩

theorem dispatch_answers (frame : Frame) : Triple (Read frame) (dispatch handler frame) (fun _ => During none) Inv := by
  cases frame with
  | request id method params =>
    refine Triple.bind (Q := fun _ => During (some id)) ?_ fun _ => ?_
    · exact Triple.modify fun c hc => ⟨rfl, hc.2⟩
    · refine (exec_keeps false _).bind fun result => ?_
      refine Triple.bind (Q := fun _ => Owes []) ?_ fun _ => ?_
      · exact Triple.modify fun c hc => hc.2.respond result
      · exact Triple.modify fun c hc => ⟨rfl, hc⟩
  | notify method params => exact dispatchNotification_keeps handler method params
  | response _ _ | other => exact Triple.pure fun _ hc => hc

theorem round_keeps (fuel : Nat) (poll : Poll) :
    Keeps (During none) (round handler fuel poll) Inv := by
  refine (drainPendingCoroutines_keeps fuel).bind fun _ => Triple.get_bind fun c hc => ?_
  refine Triple.conseq (P := During none) ?_ (by rintro _ rfl; exact hc) fun _ _ hq => hq
  refine (Triple.forEach resumeWatch_keeps _).bind fun _ => ?_
  split
  · refine readMessage_reads.bind fun frame => (dispatch_answers handler frame).bind fun _ => ?_
    exact (drainDeferred_keeps handler fuel).bind fun _ => drainPendingCoroutines_keeps fuel
  · exact drainPendingCoroutines_keeps fuel

theorem run_keeps (fuel : Nat) (polls : List Poll) :
    Keeps (During none) (run handler fuel polls) Inv :=
  Triple.forEach (round_keeps handler fuel) polls

end Loop

def start (nextId : Int) (deferred : List (String × Json)) (coroutines : List LuaProg) (watches : List (Nat × LuaProg))
    (input : List Frame) : RpcClient := ⟨nextId, deferred, coroutines, watches, input, [], none⟩

theorem run_inv (handler : String → Json → LuaProg) (fuel : Nat) (polls : List Poll) (nextId : Int)
    (deferred : List (String × Json)) (coroutines : List LuaProg) (watches : List (Nat × LuaProg)) (input : List Frame) :
    let r := run handler fuel polls (start nextId deferred coroutines watches input)
    (r.2 = none ∨ r.1.handling = none) ∧ Inv r.1 := by
  intro r
  have hstr : During none (start nextId deferred coroutines watches input) := ⟨rfl, [], rfl, .refl _⟩
  rcases (run_keeps handler fuel polls).outcome hstr with ⟨_, _, hc⟩ | ⟨hnone, hc⟩
  · exact ⟨.inr hc.1, hc.inv⟩
  · exact ⟨.inl hnone, hc⟩

theorem mem_dropped {trace} {id : Int} :
    id ∈ dropped trace ↔ ∃ method params, .readInCall (.request id method params) ∈ trace := by
  unfold dropped
  rw [mem_filterMap]
  constructor
  · rintro ⟨e, he, hid⟩
    split at hid <;> cases hid
    next method params =>
    exact ⟨method, params, he⟩
  · rintro ⟨method, params, he⟩
    exact ⟨_, he, rfl⟩

theorem Inv.answers_iff (hc : Inv c) :
    owed c.trace = some c.handling.toList ↔
      ∀ id method params, .readInCall (.request id method params) ∉ c.trace := by
  obtain ⟨l, hl, hp⟩ := hc
  constructor
  · intro ho id method params hmem
    have hlen := hp.length_eq
    rw [Option.some.inj (hl.symm.trans ho), length_append] at hlen
    have hpos : 0 < (dropped c.trace).length := length_pos_of_mem (mem_dropped.2 ⟨method, params, hmem⟩)
    omega
  · intro hno
    have hnil : dropped c.trace = [] := by
      rw [eq_nil_iff_forall_not_mem]
      intro id hid
      obtain ⟨method, params, hmem⟩ := mem_dropped.1 hid
      exact hno id method params hmem
    rw [hnil] at hp
    rw [hl]
    cases hh : c.handling with
    | none =>
      rw [hh] at hp
      rw [List.Perm.eq_nil hp]
      rfl
    | some id =>
      rw [hh] at hp
      rw [perm_singleton.1 hp]
      rfl

/-- For all frames, handlers and coroutines: when the loop has come to the end of a round no handler is running, and at every
point every request that was read is answered exactly once, but for the one whose handler is running, if and only if no
request was read by a call. -/
theorem run_answers_iff (handler : String → Json → LuaProg) (fuel : Nat) (polls : List Poll) (nextId : Int)
    (deferred : List (String × Json)) (coroutines : List LuaProg) (watches : List (Nat × LuaProg)) (input : List Frame) :
    let r := run handler fuel polls (start nextId deferred coroutines watches input)
    (r.2 = none ∨ r.1.handling = none) ∧
      (owed r.1.trace = some r.1.handling.toList ↔
        ∀ id method params, .readInCall (.request id method params) ∉ r.1.trace) := by
  obtain ⟨hend, hinv⟩ := run_inv handler fuel polls nextId deferred coroutines watches input
  exact ⟨hend, hinv.answers_iff⟩

def askVersion (_ : String) (_ : Json) : LuaProg := .call "version" .null .done

/-- The request arrives between the call in the handler of a notification and the response to it.  Everything returns, and
the request is not answered. -/
theorem request_in_call_unanswered :
    let r := run askVersion 2 [⟨[], true⟩] (start 1 [] [] []
      [.notify "config_changed" .null, .request 7 "evaluate" .null, .response 1 (.ok .null)])
    r.2 = some () ∧ r.1.handling = none ∧ owed r.1.trace = some [7] := by
  refine ⟨rfl, rfl, rfl⟩

end RpcClient

end CloudeLoader.LuaHost
