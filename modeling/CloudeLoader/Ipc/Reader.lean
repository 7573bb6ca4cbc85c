import CloudeLoader.Ipc.Framing
import CloudeLoader.Lib.JsonDoc
import CloudeLoader.Lib.Loops

/-!
# The reader thread of a plugin (`child_process.cc`)

`reader_thread_fn` reads the documents the child sends and acts on them until reading fails.
-/

namespace CloudeLoader.Ipc

open JsonDoc Json Loops

/-- What the thread works on: the identifiers in `m_pending`, the promises that were set, and the responses that were sent
to the child. -/
structure ReaderState where
  pending : List Int
  set : List (Int × Except String Json)
  sent : List (Int × Except String Json)

/-- The handler for requests of the child; what it throws is given by its message. -/
abbrev RequestHandler := String → Json → Except String Json

def onResponse (s : ReaderState) (msg : Json) : Except JsonError ReaderState :=
  match msg.value getInt "id" (-1) with
  | .error e => .error e
  | .ok id =>
    if id ∈ s.pending then
      let s := { s with pending := s.pending.erase id }
      match msg.field? "error" with
      | some error =>
        match error.getString with
        | .error e => .error e
        | .ok what => .ok { s with set := s.set ++ [(id, .error what)] }
      | none =>
        match msg.value (fun v => .ok v) "result" null with
        | .error e => .error e
        | .ok result => .ok { s with set := s.set ++ [(id, .ok result)] }
    else .ok s

def onRequest (handler : Option RequestHandler) (s : ReaderState) (msg : Json) : Except JsonError ReaderState :=
  match msg.value getInt "id" (-1) with
  | .error e => .error e
  | .ok id =>
    match msg.value getString "method" "" with
    | .error e => .error e
    | .ok method =>
      match msg.value (fun v => .ok v) "params" (.obj []) with
      | .error e => .error e
      | .ok params =>
        match handler with
        | some handler => .ok { s with sent := s.sent ++ [(id, handler method params)] }
        | none => .ok { s with sent := s.sent ++ [(id, .error "no handler registered")] }

def onNotify (s : ReaderState) (msg : Json) : Except JsonError ReaderState :=
  match msg.value getString "method" "" with
  | .error e => .error e
  | .ok _ =>
    match msg.value (fun v => .ok v) "params" null with
    | .error e => .error e
    | .ok _ => .ok s

def onMessage (handler : Option RequestHandler) (s : ReaderState) (msg : Json) : Except JsonError ReaderState :=
  match msg.value getString "type" "" with
  | .error e => .error e
  | .ok type =>
    if type = "res" then onResponse s msg
    else if type = "req" then onRequest handler s msg
    else if type = "notify" then onNotify s msg
    else .ok s

def ReaderState.failPending (s : ReaderState) : ReaderState :=
  { s with pending := [], set := s.set ++ s.pending.map fun id => (id, .error "child disconnected") }

/-- How the process may end: an accessor throws outside of the `try` blocks, or `from_msgpack` does not return.  It is told
not to throw, but throws for an array or object that declares more members than can be held, and it calls itself for each
level of nesting until the stack is exhausted. -/
inductive Crash
  | accessor (e : JsonError)
  | outOfRange
  | stackOverflow

/-- What `from_msgpack` makes of a payload: a document, or nothing for the discarded value. -/
abbrev Decoder := List UInt8 → Except Crash (Option Json)

theorem Conn.recvAll_bytes {grant : Nat → Nat} {n : Nat} {c c' : Conn} {bs : List UInt8}
    (e : c.recvAll grant n = some (bs, c')) : c'.bytes.length + n = c.bytes.length := by
  rcases recvLoop_spec grant (Nat.le_refl n) c with ⟨calls, hle, e'⟩ | ⟨-, e'⟩
  · obtain ⟨-, rfl⟩ : c.bytes.take n = bs ∧ (⟨c.bytes.drop n, calls⟩ : Conn) = c' := by simpa using e'.symm.trans e
    rw [List.length_drop]
    omega
  · simp [recvAll, e'] at e

/-- A frame takes bytes from the stream, so that the loop of the thread ends. -/
theorem Conn.readFrame_bytes {grant : Nat → Nat} {c c' : Conn} {payload : List UInt8}
    (e : c.readFrame grant = some (payload, c')) : c'.bytes.length < c.bytes.length := by
  unfold readFrame at e
  split at e
  · simp at e
  next header c₁ e₁ =>
    have h₁ := recvAll_bytes e₁
    dsimp only at e
    split at e
    · simp at e
    · have := recvAll_bytes e
      omega

/-- The loop of `reader_thread_fn`.  `running` is what the loop reads from `m_running` after a number of calls of `recv`. -/
def readerLoop (fromMsgpack : Decoder) (handler : Option RequestHandler) (grant : Nat → Nat) (running : Nat → Bool)
    (c : Conn) (s : ReaderState) : Except Crash ReaderState :=
  if running c.calls then
    match _h : c.readFrame grant with
    | none => .ok s.failPending
    | some (payload, c') =>
      match fromMsgpack payload with
      | .error crash => .error crash
      | .ok none => .ok s.failPending
      | .ok (some msg) =>
        match onMessage handler s msg with
        | .error e => .error (.accessor e)
        | .ok s => readerLoop fromMsgpack handler grant running c' s
  else .ok s.failPending
termination_by c.bytes.length
decreasing_by exact Conn.readFrame_bytes _h

def readerThreadFn (fromMsgpack : Decoder) (handler : Option RequestHandler) (grant : Nat → Nat) (running : Nat → Bool)
    (bytes : List UInt8) (s : ReaderState) : Except Crash ReaderState :=
  readerLoop fromMsgpack handler grant running ⟨bytes, 0⟩ s

/-- What the loop gets from the decoder, as long as it does not end for another reason. -/
def decoded (fromMsgpack : Decoder) (grant : Nat → Nat) (running : Nat → Bool) (c : Conn) : List (Except Crash Json) :=
  if running c.calls then
    match _h : c.readFrame grant with
    | none => []
    | some (payload, c') =>
      match fromMsgpack payload with
      | .error crash => [.error crash]
      | .ok none => []
      | .ok (some msg) => .ok msg :: decoded fromMsgpack grant running c'
  else []
termination_by c.bytes.length
decreasing_by exact Conn.readFrame_bytes _h

def onDecoded (handler : Option RequestHandler) (s : ReaderState) : Except Crash Json → Except Crash ReaderState
  | .error crash => .error crash
  | .ok msg => (onMessage handler s msg).mapError .accessor

/-! ### Documents that throw -/

def responseId (msg : Json) : Int :=
  match msg.value getInt "id" (-1) with
  | .ok id => id
  | .error _ => -1

/-- The shapes of documents on which an accessor outside of the `try` blocks throws. -/
def escapes (pending : List Int) (msg : Json) : Bool :=
  !msg.isObject || msg.misfit "type" isString ||
    match msg.field? "type" with
    | some (.str "res") =>
      msg.misfit "id" isArithmetic || (decide (responseId msg ∈ pending) && msg.misfit "error" isString)
    | some (.str "req") => msg.misfit "id" isArithmetic || msg.misfit "method" isString
    | some (.str "notify") => msg.misfit "method" isString
    | _ => false

section Shapes

variable {handler : Option RequestHandler} {s : ReaderState} {msg : Json}

theorem onResponse_error_iff (hobj : msg.isObject = true) : (∃ e, onResponse s msg = .error e) ↔
    (msg.misfit "id" isArithmetic || (decide (responseId msg ∈ s.pending) && msg.misfit "error" isString)) = true := by
  unfold onResponse responseId
  cases hid : msg.misfit "id" isArithmetic with
  | true =>
    obtain ⟨e, he⟩ := value_of_misfit throws_getInt hobj (-1) hid
    simp [he]
  | false =>
    obtain ⟨id, he⟩ := value_of_fits throws_getInt hobj (-1) hid
    obtain ⟨result, hres⟩ := value_json hobj "result" null
    simp only [he, hres, Bool.false_or]
    by_cases hmem : id ∈ s.pending
    · simp only [decide_true, hmem, Bool.true_and]
      unfold misfit
      cases msg.field? "error" with
      | none => simp
      | some v => cases v <;> simp [getString, isString]
    · simp [hmem]

theorem onRequest_error_iff (hobj : msg.isObject = true) : (∃ e, onRequest handler s msg = .error e) ↔
    (msg.misfit "id" isArithmetic || msg.misfit "method" isString) = true := by
  unfold onRequest
  cases hid : msg.misfit "id" isArithmetic with
  | true =>
    obtain ⟨e, he⟩ := value_of_misfit throws_getInt hobj (-1) hid
    simp [he]
  | false =>
    obtain ⟨id, he⟩ := value_of_fits throws_getInt hobj (-1) hid
    cases hmet : msg.misfit "method" isString with
    | true =>
      obtain ⟨e, hm⟩ := value_of_misfit throws_getString hobj "" hmet
      simp [he, hm]
    | false =>
      obtain ⟨method, hm⟩ := value_of_fits throws_getString hobj "" hmet
      obtain ⟨params, hp⟩ := value_json hobj "params" (.obj [])
      cases handler <;> simp [he, hm, hp]

theorem onNotify_error_iff (hobj : msg.isObject = true) : (∃ e, onNotify s msg = .error e) ↔
    msg.misfit "method" isString = true := by
  unfold onNotify
  cases hmet : msg.misfit "method" isString with
  | true =>
    obtain ⟨e, hm⟩ := value_of_misfit throws_getString hobj "" hmet
    simp [hm]
  | false =>
    obtain ⟨method, hm⟩ := value_of_fits throws_getString hobj "" hmet
    obtain ⟨params, hp⟩ := value_json hobj "params" null
    simp [hm, hp]

theorem onMessage_error_iff : (∃ e, onMessage handler s msg = .error e) ↔ escapes s.pending msg = true := by
  unfold onMessage escapes
  cases hobj : msg.isObject with
  | false => simp [value_of_not_object hobj]
  | true =>
    cases htype : msg.field? "type" with
    | none => simp [value, hobj, htype, misfit]
    | some v =>
      cases v with
      | str type =>
        have hval : msg.value getString "type" "" = .ok type := by simp [value, hobj, htype, getString]
        have hfits : msg.misfit "type" isString = false := by simp [misfit, htype, isString]
        simp only [hval, hfits, Bool.not_true, Bool.false_or]
        -- the document says which of the three kinds of messages it is
        by_cases hres : type = "res"
        · subst hres
          simpa using onResponse_error_iff hobj
        by_cases hreq : type = "req"
        · subst hreq
          simpa using onRequest_error_iff hobj
        by_cases hnot : type = "notify"
        · subst hnot
          simpa using onNotify_error_iff hobj
        simp [hres, hreq, hnot]
      | _ => simp [value, hobj, htype, getString, misfit, isString]

end Shapes

/-- No exception leaves the round: the decoder returns a document, and it has none of the shapes that throw. -/
def Harmless (pending : List Int) (x : Except Crash Json) : Prop := ∃ msg, x = .ok msg ∧ escapes pending msg = false

theorem onDecoded_ok_iff {handler : Option RequestHandler} {s : ReaderState} {x : Except Crash Json} :
    (∃ s', onDecoded handler s x = .ok s') ↔ Harmless s.pending x := by
  cases x with
  | error crash => simp [onDecoded, Harmless]
  | ok msg =>
    have hrnd : escapes s.pending msg = false ↔ ∃ s', onMessage handler s msg = .ok s' := by
      rw [← Bool.not_eq_true, ← @onMessage_error_iff handler]
      cases onMessage handler s msg <;> simp
    simp only [Harmless, Except.ok.injEq, exists_eq_left', hrnd, onDecoded]
    cases onMessage handler s msg <;> simp [Except.mapError]

/-! ### The loop -/

section Loop

variable {fromMsgpack : Decoder} {handler : Option RequestHandler} {grant : Nat → Nat} {running : Nat → Bool} {c : Conn}

private theorem decoded_of_readFrame {payload : List UInt8} {c' : Conn} (hrun : running c.calls = true)
    (hread : c.readFrame grant = some (payload, c')) :
    decoded fromMsgpack grant running c =
      match fromMsgpack payload with
      | .error crash => [.error crash]
      | .ok none => []
      | .ok (some msg) => .ok msg :: decoded fromMsgpack grant running c' := by
  rw [decoded, if_pos hrun]
  split <;> simp_all

/-- The loop is a fold over what it gets from the decoder, and then fails what is pending. -/
theorem readerLoop_eq (s : ReaderState) : readerLoop fromMsgpack handler grant running c s =
    ((decoded fromMsgpack grant running c).foldlM (onDecoded handler) s).map ReaderState.failPending := by
  -- by induction on the rounds: each exit of the loop is one of `decoded`
  fun_induction readerLoop fromMsgpack handler grant running c s with
  | case1 c s hrun hread =>
    rw [decoded, if_pos hrun]
    split <;> simp_all [Except.map, pure, Except.pure]
  | case2 c s hrun payload c' hread crash hdec =>
    simp only [decoded_of_readFrame hrun hread, hdec]
    rfl
  | case3 c s hrun payload c' hread hdec =>
    simp only [decoded_of_readFrame hrun hread, hdec]
    rfl
  | case4 c s hrun payload c' hread msg hdec e hmsg =>
    simp only [decoded_of_readFrame hrun hread, hdec, List.foldlM_cons, onDecoded, hmsg]
    rfl
  | case5 c s hrun payload c' hread msg hdec s' hmsg ih =>
    simp only [decoded_of_readFrame hrun hread, hdec, List.foldlM_cons, onDecoded, hmsg]
    exact ih
  | case6 c s hrun =>
    rw [decoded, if_neg hrun]
    rfl

end Loop

/-- The reader thread ends regularly, with nothing left pending, on exactly those streams on which the decoder returns for
every payload and no document the thread comes to has one of the shapes that throw. -/
theorem readerThreadFn_ok_iff (fromMsgpack : Decoder) (handler : Option RequestHandler) (grant : Nat → Nat)
    (running : Nat → Bool) (bytes : List UInt8) (s : ReaderState) :
    (∃ s', readerThreadFn fromMsgpack handler grant running bytes s = .ok s' ∧ s'.pending = []) ↔
      ∀ k t x, ((decoded fromMsgpack grant running ⟨bytes, 0⟩).take k).foldlM (onDecoded handler) s = .ok t →
        (decoded fromMsgpack grant running ⟨bytes, 0⟩)[k]? = some x → Harmless t.pending x := by
  unfold readerThreadFn
  rw [readerLoop_eq]
  generalize decoded fromMsgpack grant running ⟨bytes, 0⟩ = docs
  have hloop := @foldlM_ok_iff _ _ _ (onDecoded handler) docs s
  simp only [onDecoded_ok_iff] at hloop
  rw [← hloop]
  cases docs.foldlM (onDecoded handler) s with
  | error e => simp [Except.map]
  | ok t => simp [Except.map, ReaderState.failPending]

theorem readerThreadFn_nil :
    readerThreadFn (fun payload => .ok (if payload = [0xc0] then some null else none)) none (fun _ => 4) (fun _ => true)
      [1, 0, 0, 0, 0xc0] ⟨[1], [], []⟩ = .error (.accessor .notObject) := by
  rw [readerThreadFn, readerLoop]
  rfl

end CloudeLoader.Ipc
