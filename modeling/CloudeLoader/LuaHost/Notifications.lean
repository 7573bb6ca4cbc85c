import CloudeLoader.LuaHost.Rpc

/-!
# Notifications of the child (`rpc.cc`)

A notification is read by the main loop, which calls the handler for it at once, or by a call that waits for its response,
which defers it.
-/

namespace CloudeLoader.LuaHost.RpcClient

open JsonDoc Blocking List

/-- The notifications that were read and those the handler was called for, in order.  `outside` are those that were read by a
call which was not made from a handler. -/
structure Tally where
  consumed : List (String × Json)
  dispatched : List (String × Json)
  inCoroutine : Bool
  outside : List (String × Json)

namespace Tally

def count (t : Tally) : IpcEvent → Tally
  | .readInRun (.notify method params) => { t with consumed := t.consumed ++ [(method, params)] }
  | .readInCall (.notify method params) =>
    { t with
      consumed := t.consumed ++ [(method, params)]
      outside := if t.inCoroutine then t.outside ++ [(method, params)] else t.outside }
  | .dispatched method params => { t with dispatched := t.dispatched ++ [(method, params)] }
  | .resumed => { t with inCoroutine := true }
  | .suspended => { t with inCoroutine := false }
  | _ => t

theorem count_sent (t : Tally) (frame : Frame) : t.count (.sent frame) = t := by
  cases frame <;> rfl

theorem count_readInRun (t : Tally) {frame} (hf : ∀ method params, frame ≠ .notify method params) :
    t.count (.readInRun frame) = t := by
  cases frame with
  | notify method params => exact absurd rfl (hf method params)
  | request _ _ _ | response _ _ | other => rfl

theorem count_readInCall (t : Tally) {frame} (hf : ∀ method params, frame ≠ .notify method params) :
    t.count (.readInCall frame) = t := by
  cases frame with
  | notify method params => exact absurd rfl (hf method params)
  | request _ _ _ | response _ _ | other => rfl

/-- The notifications in `queue` are all that were read and not dispatched, and the next ones in order. -/
structure Awaits (t : Tally) (queue : List (String × Json)) : Prop where
  kept : t.consumed.Perm (t.dispatched ++ queue)
  ordered : t.outside = [] → t.consumed = t.dispatched ++ queue

variable {t : Tally} {queue : List (String × Json)}

theorem outside_of_readInCall (method : String) (params : Json)
    (hout : (t.count (.readInCall (.notify method params))).outside = []) : t.inCoroutine = false ∧ t.outside = [] := by
  have hif : (if t.inCoroutine then t.outside ++ [(method, params)] else t.outside) = [] := hout
  split at hif
  · exact absurd hif (concat_ne_nil _ _)
  · next hco => exact ⟨eq_false_of_ne_true hco, hif⟩

theorem Awaits.readInCall (h : t.Awaits queue) (method : String) (params : Json) :
    (t.count (.readInCall (.notify method params))).Awaits (queue ++ [(method, params)]) := by
  refine ⟨?_, ?_⟩
  · show (t.consumed ++ [(method, params)]).Perm (t.dispatched ++ (queue ++ [(method, params)]))
    rw [← append_assoc]
    exact h.kept.append_right _
  · intro hout
    show t.consumed ++ [(method, params)] = t.dispatched ++ (queue ++ [(method, params)])
    rw [h.ordered (outside_of_readInCall method params hout).2, append_assoc]

theorem Awaits.readInRun (h : t.Awaits queue) (hq : t.outside = [] → queue = []) (method : String) (params : Json) :
    (t.count (.readInRun (.notify method params))).Awaits ((method, params) :: queue) := by
  refine ⟨?_, ?_⟩
  · show (t.consumed ++ [(method, params)]).Perm (t.dispatched ++ (method, params) :: queue)
    refine (h.kept.append_right _).trans ?_
    rw [append_assoc]
    exact (perm_append_singleton _ queue).append_left _
  · intro hout
    show t.consumed ++ [(method, params)] = t.dispatched ++ (method, params) :: queue
    rw [h.ordered hout, hq hout, append_nil]

theorem Awaits.dispatched {method params} (h : t.Awaits ((method, params) :: queue)) :
    (t.count (.dispatched method params)).Awaits queue := by
  have hmove : t.dispatched ++ [(method, params)] ++ queue = t.dispatched ++ (method, params) :: queue :=
    append_assoc _ _ _
  exact ⟨hmove ▸ h.kept, hmove ▸ h.ordered⟩

end Tally

def tally (early : List (String × Json)) (trace : List IpcEvent) : Tally :=
  trace.foldl Tally.count ⟨early, [], false, early⟩

def runToPoll (handler : String → Json → LuaProg) (fuel : Nat) (polls : List Poll) : Blocking RpcClient Unit := do
  run handler fuel polls
  drainPendingCoroutines fuel

/-! ### What is still to be dispatched -/

variable {early rest : List (String × Json)} {running : Bool} {c : RpcClient} {method : String} {params : Json}

theorem tally_log (c : RpcClient) (e : IpcEvent) : tally early (c.log e).trace = (tally early c.trace).count e := by
  simp [tally, RpcClient.log, foldl_append]

/-- The notifications in `rest` are to be dispatched first, and after them those that are deferred. -/
def Waiting (early : List (String × Json)) (running : Bool) (rest : List (String × Json)) (c : RpcClient) : Prop :=
  (tally early c.trace).inCoroutine = running ∧ (tally early c.trace).Awaits (rest ++ c.deferred)

/-- Nothing is to be dispatched but what was read outside the handlers. -/
def Settled (early : List (String × Json)) (running : Bool) (c : RpcClient) : Prop :=
  Waiting early running [] c ∧ ((tally early c.trace).outside = [] → c.deferred = [])

def InOrder (early : List (String × Json)) (c : RpcClient) : Prop :=
  (tally early c.trace).outside = [] → (tally early c.trace).dispatched <+: (tally early c.trace).consumed

theorem Waiting.inOrder (hc : Waiting early running rest c) : InOrder early c := by
  intro hout
  rw [hc.2.ordered hout]
  exact prefix_append _ _

theorem Waiting.log (hc : Waiting early running rest c) {e}
    (he : (tally early c.trace).count e = tally early c.trace) : Waiting early running rest (c.log e) := by
  unfold Waiting
  rw [tally_log, he]
  exact hc

theorem Settled.log (hc : Settled early running c) {e}
    (he : (tally early c.trace).count e = tally early c.trace) : Settled early running (c.log e) := by
  refine ⟨hc.1.log he, ?_⟩
  rw [tally_log, he]
  exact hc.2

theorem Waiting.defer (hc : Waiting early running rest c) (input : List Frame) (method : String) (params : Json) :
    Waiting early running rest
      { { c with input := input }.log (.readInCall (.notify method params)) with
        deferred := c.deferred ++ [(method, params)] } := by
  unfold Waiting
  rw [tally_log, ← append_assoc]
  exact ⟨hc.1, hc.2.readInCall method params⟩

theorem Waiting.keeps : Kept (Waiting early running rest) where
  queues _ _ _ _ hc := hc
  sent _ hc := hc.log (Tally.count_sent _ _)
  read c _ input hf hc := Waiting.log (c := { c with input := input }) hc (Tally.count_readInCall _ hf)
  defer _ input method params hc := hc.defer input method params

theorem Settled.keeps : Kept (Settled early true) where
  queues _ _ _ _ hc := hc
  sent _ hc := hc.log (Tally.count_sent _ _)
  read c _ input hf hc := Settled.log (c := { c with input := input }) hc (Tally.count_readInCall _ hf)
  defer c input method params hc := by
    refine ⟨hc.1.defer input method params, ?_⟩
    rw [tally_log]
    intro hout
    have hnot := (Tally.outside_of_readInCall method params hout).1
    exact absurd (hc.1.1.symm.trans hnot) (by simp)

/-! ### The main loop -/

theorem resumeCoroutine_settles (co : LuaProg) :
    Keeps (Settled early false) (resumeCoroutine co) (InOrder early) := by
  refine Triple.bind (Q := fun _ => Settled early true) (Triple.modify fun c hc => ?_) fun _ => ?_
  · unfold Settled Waiting
    rw [tally_log]
    exact ⟨⟨rfl, hc.1.2.kept, hc.1.2.ordered⟩, hc.2⟩
  · refine (Settled.keeps.exec (fun _ hc => hc.1.inOrder) true co).bind fun _ => Triple.modify fun c hc => ?_
    unfold Settled Waiting
    rw [tally_log]
    exact ⟨⟨rfl, hc.1.2.kept, hc.1.2.ordered⟩, hc.2⟩

theorem drainPendingCoroutines_settles (fuel : Nat) :
    Keeps (Settled early false) (drainPendingCoroutines fuel) (InOrder early) :=
  drainPendingCoroutines_of (fun _ hc => hc) (fun _ hc => hc.1.inOrder) resumeCoroutine_settles fuel

theorem resumeWatch_settles (fd : Nat) :
    Keeps (Settled early false) (resumeWatch fd) (InOrder early) :=
  resumeWatch_of (fun _ _ hc => hc) resumeCoroutine_settles fd

def toDispatch : Frame → List (String × Json)
  | .notify method params => [(method, params)]
  | _ => []

theorem readMessage_waiting :
    Triple (Settled early false) readMessage (fun frame => Waiting early false (toDispatch frame)) (InOrder early) := by
  refine Triple.get_bind fun c hc => ?_
  split
  · refine Triple.block ?_
    rintro _ rfl
    exact hc.1.inOrder
  · next frame input _ =>
    refine Triple.bind (Q := fun _ => Waiting early false (toDispatch frame)) (Triple.modify ?_)
      fun _ => Triple.pure fun _ hr => hr
    rintro c rfl
    cases frame with
    | notify method params =>
      unfold Waiting
      rw [tally_log]
      exact ⟨hc.1.1, hc.1.2.readInRun hc.2 method params⟩
    | request _ _ _ | response _ _ | other =>
      exact Waiting.log (c := { c with input := input }) hc.1 (Tally.count_readInRun _ (by simp))

section Loop

variable (handler : String → Json → LuaProg)

theorem dispatchNotification_dispatches (method : String) (params : Json) (rest : List (String × Json)) :
    Triple (Waiting early false ((method, params) :: rest)) (dispatchNotification handler method params)
      (fun _ => Waiting early false rest) (InOrder early) := by
  refine Triple.bind (Q := fun _ => Waiting early false rest) (Triple.modify fun c hc => ?_) fun _ => ?_
  · unfold Waiting
    rw [tally_log]
    exact ⟨hc.1, hc.2.dispatched⟩
  · exact (Waiting.keeps.exec (fun _ hc => hc.inOrder) false _).bind fun _ => Triple.pure fun _ hc => hc

theorem dispatch_dispatches (frame : Frame) :
    Triple (Waiting early false (toDispatch frame)) (dispatch handler frame) (fun _ => Waiting early false [])
      (InOrder early) := by
  cases frame with
  | request id method params =>
    refine Triple.bind (Q := fun _ => Waiting early false []) (Triple.modify fun c hc => ?_) fun _ => ?_
    · exact hc
    · refine (Waiting.keeps.exec (fun _ hc => hc.inOrder) false _).bind fun result => ?_
      refine Triple.bind (Q := fun _ => Waiting early false []) (Triple.modify fun c hc => ?_) fun _ => ?_
      · exact hc.log (Tally.count_sent _ _)
      · exact Triple.modify fun _ hc => hc
  | notify method params => exact dispatchNotification_dispatches handler method params []
  | response _ _ | other => exact Triple.pure fun _ hc => hc

theorem drainDeferred_settles (fuel : Nat) :
    Triple (Waiting early false []) (drainDeferred handler fuel) (fun _ => Settled early false) (InOrder early) := by
  induction fuel with
  | zero => exact Triple.block fun _ hc => hc.inOrder
  | succ fuel ih =>
    refine Triple.get_bind fun c hc => ?_
    split
    · next hemp =>
      refine Triple.pure ?_
      rintro _ rfl
      exact ⟨hc, fun _ => isEmpty_iff.1 hemp⟩
    · refine Triple.bind (Q := fun _ => Waiting early false c.deferred) (Triple.modify ?_) fun _ => ?_
      · rintro _ rfl
        unfold Waiting
        rw [append_nil]
        exact hc
      · refine Triple.bind (Q := fun _ => Waiting early false []) ?_ fun _ => ih
        exact Triple.forEach_rest (P := Waiting early false)
          (fun notif rest => dispatchNotification_dispatches handler notif.1 notif.2 rest) _

theorem round_settles (fuel : Nat) (poll : Poll) :
    Keeps (Settled early false) (round handler fuel poll) (InOrder early) := by
  refine (drainPendingCoroutines_settles fuel).bind fun _ => Triple.get_bind fun c hc => ?_
  refine Triple.conseq (P := Settled early false) ?_ (by rintro _ rfl; exact hc) fun _ _ hq => hq
  refine (Triple.forEach resumeWatch_settles _).bind fun _ => ?_
  split
  · refine readMessage_waiting.bind fun frame => (dispatch_dispatches handler frame).bind fun _ => ?_
    exact (drainDeferred_settles handler fuel).bind fun _ => drainPendingCoroutines_settles fuel
  · exact drainPendingCoroutines_settles fuel

theorem runToPoll_settles (fuel : Nat) (polls : List Poll) :
    Keeps (Settled early false) (runToPoll handler fuel polls) (InOrder early) :=
  (Triple.forEach (round_settles handler fuel) polls).bind fun _ => drainPendingCoroutines_settles fuel

end Loop

/-! ### Whole runs -/

variable (handler : String → Json → LuaProg) (fuel : Nat) (polls : List Poll) (nextId : Int) (coroutines : List LuaProg)
  (watches : List (Nat × LuaProg)) (input : List Frame)

theorem start_settled (early : List (String × Json)) : Settled early false (start nextId early coroutines watches input) :=
  ⟨⟨rfl, .refl _, fun _ => rfl⟩, fun hout => hout⟩

/-- Whenever the loop waits, each notification that was read was dispatched or is in the queue, exactly once. -/
theorem notifications_kept (early : List (String × Json)) :
    let r := runToPoll handler fuel polls (start nextId early coroutines watches input)
    let t := tally early r.1.trace
    r.2 = some () → t.consumed.Perm (t.dispatched ++ r.1.deferred) := by
  intro r t hr
  rcases (runToPoll_settles handler fuel polls).outcome (start_settled nextId coroutines watches input early) with
    ⟨_, _, hc⟩ | ⟨hnone, _⟩
  · exact hc.1.2.kept
  · exact absurd (hr.symm.trans hnone) (by simp)

theorem notifications_kept_deferred :
    let r := runToPoll askVersion 2 [⟨[5], false⟩] (start 1 [] [] [(5, askVersion "" .null)]
      [.notify "config_changed" .null, .response 1 (.ok .null)])
    (tally [] r.1.trace).consumed.Perm ((tally [] r.1.trace).dispatched ++ r.1.deferred) :=
  notifications_kept askVersion 2 _ 1 [] _ _ [] rfl

/-- If no notification is read by a call that is made from a coroutine or before the loop is entered, then the handler is
called for the notifications in the order they are read, each once, and whenever the loop is about to wait in `poll` it was
called for all of them. -/
theorem notifications_in_order (early : List (String × Json)) :
    let r := runToPoll handler fuel polls (start nextId early coroutines watches input)
    let t := tally early r.1.trace
    t.outside = [] → t.dispatched <+: t.consumed ∧ (r.2 = some () → t.dispatched = t.consumed) := by
  intro r t hout
  rcases (runToPoll_settles handler fuel polls).outcome (start_settled nextId coroutines watches input early) with
    ⟨_, _, hc⟩ | ⟨hnone, hc⟩
  · have hall : t.consumed = t.dispatched ++ ([] ++ r.1.deferred) := hc.1.2.ordered hout
    rw [hc.2 hout, append_nil, append_nil] at hall
    exact ⟨hall ▸ prefix_rfl, fun _ => hall.symm⟩
  · exact ⟨hc hout, fun hr => absurd (hr.symm.trans hnone) (by simp)⟩

theorem notifications_in_order_nested :
    let r := runToPoll askVersion 3 [⟨[], true⟩] (start 1 [] [] []
      [.request 7 "evaluate" .null, .notify "config_changed" .null, .response 1 (.ok .null), .response 2 (.ok .null)])
    let t := tally [] r.1.trace
    r.2 = some () ∧ t.outside = [] ∧ t.consumed = [("config_changed", .null)] ∧ t.dispatched = t.consumed :=
  ⟨rfl, rfl, rfl, (notifications_in_order askVersion 3 _ 1 [] [] _ [] rfl).2 rfl⟩

/-- A coroutine whose descriptor is readable asks the parent for its version, and a notification comes before the response.
The loop waits in `poll` again, and the handler was not called for the notification. -/
theorem coroutine_defers_past_poll :
    let r := runToPoll askVersion 2 [⟨[5], false⟩] (start 1 [] [] [(5, askVersion "" .null)]
      [.notify "config_changed" .null, .response 1 (.ok .null)])
    let t := tally [] r.1.trace
    r.2 = some () ∧ t.consumed = [("config_changed", .null)] ∧ t.dispatched = [] :=
  ⟨rfl, rfl, rfl⟩

-- the notification that is read by the main loop next is dispatched first
example :
    let r := runToPoll askVersion 3 [⟨[5], false⟩, ⟨[], true⟩] (start 1 [] [] [(5, askVersion "" .null)]
      [.notify "config_changed" .null, .response 1 (.ok .null), .notify "shutdown" .null, .response 2 (.ok .null),
        .response 3 (.ok .null)])
    let t := tally [] r.1.trace
    r.2 = some () ∧ t.consumed = [("config_changed", .null), ("shutdown", .null)] ∧
      t.dispatched = [("shutdown", .null), ("config_changed", .null)] :=
  ⟨rfl, rfl, rfl⟩

end CloudeLoader.LuaHost.RpcClient
