import CloudeLoader.Lib.JsonDoc
import CloudeLoader.Lib.Transition

/-!
# The CDP client (`cdp_api.cc`, `thread_pool.cc`)

Threads of four kinds meet in a `cdp_client`: the ones that call `send_host`, the worker for incoming messages, the
cleanup thread, and the thread that calls `shutdown()`.
-/

namespace CloudeLoader.Cdp

open JsonDoc

/-- What a promise is completed with; a response is given with the `id` it carries. -/
inductive Completion
  | response (raw : Int) (result : Except String Json)
  | timeout
  | sendFailed
  | shutdown

inductive SendPhase
  | entered
  | refused
  | passed
  | registered
  | failed
  | declined
  | returned
  deriving DecidableEq

/-- An `async_request`.  `sets` counts how often the promise was set, and `pooled` says that the caller is a callback. -/
structure CdpRequest where
  id : Int
  phase : SendPhase
  completed : Bool
  promise : Option Completion
  sets : Nat
  pooled : Bool

def CdpRequest.complete (x : CdpRequest) (v : Completion) : CdpRequest :=
  if x.completed then x else { x with completed := true, promise := some v, sets := x.sets + 1 }

inductive WorkerPhase
  | top
  | locking
  | tested
  | asleep
  | handling (message : Option Json) (callbacks : List Nat)
  | parsed (raw : Int) (result : Except String Json)
  | holding (c : Nat) (raw : Int) (result : Except String Json)
  | dispatching (callbacks : List Nat)
  | draining
  | ended

inductive CleanupPhase
  | waiting
  | checked
  | holding (cs : List Nat)
  | ended

inductive ShutdownPhase
  | idle
  | flagged
  | notified
  | workerJoined
  | cleanupJoined
  | poolStopped
  | poolJoined
  | returned
  deriving DecidableEq

/-- A thread of the pool.  A callback can make `calls` more calls, and waits for the future of a request. -/
inductive PoolWorker
  | idle
  | running (calls : Nat) (wait : Option Nat)
  | ended

structure CdpClient where
  nextId : Int
  requests : List CdpRequest
  pending : Int → Option Nat
  queue : List (Option Json × List Nat)
  worker : WorkerPhase
  cleanup : CleanupPhase
  closing : ShutdownPhase
  tasks : List Nat
  pool : List PoolWorker

/-! ### Messages -/

def responseResult (message : Json) : Except String Json :=
  match message.field? "error" with
  | some error =>
    match error.field? "message" with
    | some (.str what) => .error what
    | _ => .error "CDP Error"
  | none =>
    match message.field? "result" with
    | some result => .ok result
    | none => .error "Invalid CDP response"

def response? (message : Json) : Option (Int × Except String Json) :=
  match message.field? "id" with
  | some (.int raw) => some (raw, responseResult message)
  | _ => none

def isEvent (message : Json) : Bool := (message.field? "method").any Json.isString

/-! ### Steps -/

inductive SendAction
  | test
  | refuse
  | register
  | transmit (ok : Bool)
  | fail

inductive WorkerAction
  | loop
  | lock
  | sleep
  | process
  | take
  | settle
  | dispatch
  | drain

inductive CleanupAction
  | check
  | take (stale : List Nat)
  | settle

inductive ShutdownAction
  | flag
  | notify
  | joinWorker
  | joinCleanup
  | stopPool
  | joinPool
  | sweep

inductive PoolAction
  | take
  | call
  | send (c : Nat) (a : SendAction)
  | get
  | done
  | exit

inductive CdpEvent
  | sendHost
  | caller (c : Nat) (a : SendAction)
  | handleMessage (message : Option Json) (callbacks : List Nat)
  | worker (a : WorkerAction)
  | cleanup (a : CleanupAction)
  | shutdown (a : ShutdownAction)
  | pool (w : Nat) (a : PoolAction)

namespace CdpClient

def start : CdpClient :=
  { nextId := 1, requests := [], pending := fun _ => none, queue := [], worker := .top, cleanup := .waiting,
    closing := .idle, tasks := [], pool := [.idle, .idle, .idle, .idle] }

variable (p : CdpClient)

def isShutdown : Bool := p.closing ≠ .idle

def stopped : Bool := p.closing = .poolStopped ∨ p.closing = .poolJoined ∨ p.closing = .returned

def setRequest (c : Nat) (x : CdpRequest) : CdpClient := { p with requests := p.requests.set c x }

/-- The entry of request `c` is in `m_pending_requests`. -/
def tabled (c : Nat) : Bool :=
  match p.requests[c]? with
  | some x => p.pending x.id = some c
  | none => false

def enter (pooled : Bool) : CdpClient :=
  { p with
    nextId := int32 (p.nextId + 1)
    requests := p.requests ++ [⟨p.nextId, .entered, false, none, 0, pooled⟩] }

def sendStep (c : Nat) (x : CdpRequest) : SendAction → Option CdpClient
  | .test =>
    if x.phase = .entered then some (p.setRequest c { x with phase := if p.isShutdown then .refused else .passed })
    else none
  | .refuse =>
    if x.phase = .refused then some (p.setRequest c { x.complete .shutdown with phase := .declined }) else none
  | .register =>
    if x.phase = .passed then
      some { p.setRequest c { x with phase := .registered } with pending := Function.update p.pending x.id (some c) }
    else none
  | .transmit ok =>
    if x.phase = .registered then some (p.setRequest c { x with phase := if ok then .returned else .failed }) else none
  | .fail =>
    if x.phase = .failed then
      some { p.setRequest c { x.complete .sendFailed with phase := .returned } with
        pending := Function.update p.pending x.id none }
    else none

def handleMessage (message : Option Json) (callbacks : List Nat) : Option CdpClient :=
  if p.isShutdown then some p
  else if p.queue.length < 1000 then
    match p.worker with
    | .tested => none
    | .asleep => some { p with queue := p.queue ++ [(message, callbacks)], worker := .locking }
    | _ => some { p with queue := p.queue ++ [(message, callbacks)] }
  else none

def workerStep (a : WorkerAction) : Option CdpClient :=
  match a, p.worker with
  | .loop, .top => some { p with worker := if p.isShutdown then .draining else .locking }
  | .lock, .locking =>
    match p.queue with
    | (message, callbacks) :: rest => some { p with queue := rest, worker := .handling message callbacks }
    | [] => some { p with worker := if p.isShutdown then .top else .tested }
  | .sleep, .tested => some { p with worker := .asleep }
  | .process, .handling message callbacks =>
    -- `process_message` up to the first lock; it returns at once when the client is shut down
    if p.isShutdown then some { p with worker := .top }
    else
      match message with
      | none => some { p with worker := .top }
      | some message =>
        match response? message with
        | some (raw, result) => some { p with worker := .parsed raw result }
        | none => some { p with worker := if isEvent message then .dispatching callbacks else .top }
  | .take, .parsed raw result =>
    match p.pending (int32 raw) with
    | some c => some { p with worker := .holding c raw result, pending := Function.update p.pending (int32 raw) none }
    | none => some { p with worker := .top }
  | .settle, .holding c raw result =>
    some { p with worker := .top, requests := p.requests.modify c (·.complete (.response raw result)) }
  | .dispatch, .dispatching callbacks =>
    some { p with worker := .top, tasks := if p.stopped then p.tasks else p.tasks ++ callbacks }
  | .drain, .draining => some { p with queue := [], worker := .ended }
  | _, _ => none

def cleanupStep (a : CleanupAction) : Option CdpClient :=
  match a, p.cleanup with
  | .check, .waiting => some { p with cleanup := if p.isShutdown then .ended else .checked }
  | .take stale, .checked =>
    some { p with
      cleanup := .holding ((List.range p.requests.length).filter fun c => p.tabled c && c ∈ stale)
      pending := fun i => (p.pending i).filter (· ∉ stale) }
  | .settle, .holding (c :: cs) =>
    some { p with cleanup := .holding cs, requests := p.requests.modify c (·.complete .timeout) }
  | .settle, .holding [] => some { p with cleanup := .waiting }
  | _, _ => none

def failAll : CdpClient :=
  { p with
    requests := p.requests.mapIdx fun c x => if p.pending x.id = some c then x.complete .shutdown else x
    pending := fun _ => none
    closing := .returned }

def shutdownStep (a : ShutdownAction) : Option CdpClient :=
  match a, p.closing with
  | .flag, .idle => some { p with closing := .flagged }
  | .notify, .flagged =>
    -- the mutex is not taken: a worker that has tested and does not sleep yet is not reached
    match p.worker with
    | .asleep => some { p with closing := .notified, worker := .locking }
    | _ => some { p with closing := .notified }
  | .joinWorker, .notified =>
    match p.worker with
    | .ended => some { p with closing := .workerJoined }
    | _ => none
  | .joinCleanup, .workerJoined =>
    match p.cleanup with
    | .ended => some { p with closing := .cleanupJoined }
    | _ => none
  | .stopPool, .cleanupJoined => some { p with closing := .poolStopped, tasks := [] }
  | .joinPool, .poolStopped =>
    if p.pool.all fun w => match w with | .ended => true | _ => false then some { p with closing := .poolJoined } else none
  | .sweep, .poolJoined => some p.failAll
  | _, _ => none

def poolStep (w : Nat) (a : PoolAction) : Option CdpClient :=
  match a, p.pool[w]? with
  | .take, some .idle =>
    match p.tasks with
    | calls :: rest => some { p with tasks := rest, pool := p.pool.set w (.running calls none) }
    | [] => none
  | .call, some (.running (calls + 1) none) =>
    some { p.enter true with pool := p.pool.set w (.running calls (some p.requests.length)) }
  | .send c a, some (.running _ (some d)) =>
    match p.requests[c]? with
    | some x => if c = d then p.sendStep c x a else none
    | none => none
  | .get, some (.running calls (some c)) =>
    match p.requests[c]? with
    | some x =>
      if (x.phase = .returned ∨ x.phase = .declined) ∧ x.promise.isSome then
        some { p with pool := p.pool.set w (.running calls none) }
      else none
    | none => none
  | .done, some (.running _ none) => some { p with pool := p.pool.set w .idle }
  | .exit, some .idle =>
    if p.stopped ∧ p.tasks.isEmpty then some { p with pool := p.pool.set w .ended } else none
  | _, _ => none

def exec : CdpEvent → Option CdpClient
  | .sendHost => some (p.enter false)
  | .caller c a =>
    match p.requests[c]? with
    | some x => if x.pooled then none else p.sendStep c x a
    | none => none
  | .handleMessage message callbacks => p.handleMessage message callbacks
  | .worker a => p.workerStep a
  | .cleanup a => p.cleanupStep a
  | .shutdown a => p.shutdownStep a
  | .pool w a => p.poolStep w a

end CdpClient

end CloudeLoader.Cdp
