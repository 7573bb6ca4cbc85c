import CloudeLoader.Cdp.Client

/-!
# What the steps of the CDP client do

`exec_effect` sorts the steps by what they change in the table and the requests, and `ThreadInv` is what is known about the
worker, the cleanup thread and `shutdown()`.
-/

namespace CloudeLoader.Cdp

open JsonDoc Transition List

def CdpEvent.Sends (e : CdpEvent) (c : Nat) (a : SendAction) : Prop := e = .caller c a ∨ ∃ w, e = .pool w (.send c a)

def ResponseSeen (es : List CdpEvent) (raw : Int) (result : Except String Json) : Prop :=
  ∃ message callbacks, .handleMessage (some message) callbacks ∈ es ∧ response? message = some (raw, result)

/-- The events an outcome can come from; for a response, whatever number it carries. -/
def Completion.Source (es : List CdpEvent) (c : Nat) : Completion → Prop
  | .response raw result => ResponseSeen es raw result
  | .timeout => ∃ stale, .cleanup (.take stale) ∈ es ∧ c ∈ stale
  | .sendFailed => ∃ e ∈ es, e.Sends c (.transmit false)
  | .shutdown => .shutdown .flag ∈ es

/-- The outcome is the request's own: a response carries its number. -/
def Completion.From (es : List CdpEvent) (c : Nat) (id : Int) (v : Completion) : Prop :=
  v.Source es c ∧ ∀ raw result, v = .response raw result → raw = id

def CdpRequest.CompletedOnce (es : List CdpEvent) (c : Nat) (x : CdpRequest) : Prop :=
  ∃ v, x.promise = some v ∧ x.sets = 1 ∧ v.From es c x.id

def SendPhase.placed : SendPhase → Bool
  | .registered => true
  | .failed => true
  | .returned => true
  | _ => false

theorem ResponseSeen.mono {es fs raw result} (h : ResponseSeen es raw result)
    (hsub : es ⊆ fs) : ResponseSeen fs raw result := by
  obtain ⟨message, callbacks, hmem, hr⟩ := h
  exact ⟨message, callbacks, hsub hmem, hr⟩

theorem Completion.Source.mono {es fs : List CdpEvent} {c : Nat} {v : Completion} (h : v.Source es c) (hsub : es ⊆ fs) :
    v.Source fs c := by
  cases v with
  | response raw result => exact ResponseSeen.mono h hsub
  | timeout =>
    obtain ⟨stale, hmem, hc⟩ := h
    exact ⟨stale, hsub hmem, hc⟩
  | sendFailed =>
    obtain ⟨e, hmem, he⟩ := h
    exact ⟨e, hsub hmem, he⟩
  | shutdown => exact hsub h

namespace CdpClient

def Tabled (p : CdpClient) (c : Nat) (x : CdpRequest) : Prop := p.pending x.id = some c

def Held (p : CdpClient) (c : Nat) : Prop := ∃ raw result, p.worker = .holding c raw result

def InCleanup (p : CdpClient) (c : Nat) : Prop := ∃ cs, p.cleanup = .holding cs ∧ c ∈ cs

/-! ### What a step does to the requests -/

/-- What must not happen in a step: that a request is sent whose entry was made after `shutdown()` has failed all entries,
and that a request is completed by a response with another number. -/
def safe (p : CdpClient) : CdpEvent → Bool
  | .caller c (.transmit true) => !(p.closing = .returned && p.tabled c)
  | .pool _ (.send c (.transmit true)) => !(p.closing = .returned && p.tabled c)
  | .worker .settle =>
    match p.worker with
    | .holding c raw _ => (p.requests[c]?).all fun x => x.completed || raw == x.id
    | _ => true
  | _ => true

inductive Effect (p p' : CdpClient) : CdpEvent → Prop
  | quiet {e} (hsafe : p.safe e = true) (hnext : p'.nextId = p.nextId) (hreq : p'.requests = p.requests)
      (hpend : p'.pending = p.pending) (hheld : ∀ c, p'.Held c ↔ p.Held c) (hclean : ∀ c, p'.InCleanup c ↔ p.InCleanup c)
      (hclosing : p'.closing = .returned ↔ p.closing = .returned)
      (hlist : ∀ cs, p'.cleanup = .holding cs → p.cleanup = .holding cs) : Effect p p' e
  | enter {e} (pooled : Bool) (hsafe : p.safe e = true) (hnext : p'.nextId = int32 (p.nextId + 1))
      (hreq : p'.requests = p.requests ++ [⟨p.nextId, .entered, false, none, 0, pooled⟩]) (hpend : p'.pending = p.pending)
      (hworker : p'.worker = p.worker) (hcleanup : p'.cleanup = p.cleanup) (hclosing : p'.closing = p.closing) : Effect p p' e
  | send {e c x a} (he : e.Sends c a) (hx : p.requests[c]? = some x) (hs : p.sendStep c x a = some p') : Effect p p' e
  | take {c raw result} (hw : p.worker = .parsed raw result) (hc : p.pending (int32 raw) = some c)
      (hp : p' = { p with worker := .holding c raw result, pending := Function.update p.pending (int32 raw) none }) :
      Effect p p' (.worker .take)
  | settle {c raw result} (hw : p.worker = .holding c raw result)
      (hp : p' = { p with worker := .top, requests := p.requests.modify c (·.complete (.response raw result)) }) :
      Effect p p' (.worker .settle)
  | stale {stale} (hc : p.cleanup = .checked)
      (hp : p' = { p with
        cleanup := .holding ((range p.requests.length).filter fun c => p.tabled c && c ∈ stale)
        pending := fun i => (p.pending i).filter (· ∉ stale) }) : Effect p p' (.cleanup (.take stale))
  | expire {c cs} (hc : p.cleanup = .holding (c :: cs))
      (hp : p' = { p with cleanup := .holding cs, requests := p.requests.modify c (·.complete .timeout) }) :
      Effect p p' (.cleanup .settle)
  | sweep (hc : p.closing = .poolJoined) (hp : p' = p.failAll) : Effect p p' (.shutdown .sweep)

variable {p p' : CdpClient} {e : CdpEvent} {es : List CdpEvent} {c : Nat} {x : CdpRequest}

theorem Effect.still (hsafe : p.safe e = true) (hnext : p'.nextId = p.nextId) (hreq : p'.requests = p.requests)
    (hpend : p'.pending = p.pending) (hheld : ∀ c, p'.Held c ↔ p.Held c) (hcleanup : p'.cleanup = p.cleanup)
    (hclosing : p'.closing = p.closing) : Effect p p' e :=
  .quiet hsafe hnext hreq hpend hheld (fun _ => by simp only [InCleanup, hcleanup]) (by rw [hclosing]) fun _ hcs =>
    hcleanup ▸ hcs

theorem workerStep_effect {a} (h : p.workerStep a = some p') : Effect p p' (.worker a) := by
  unfold workerStep at h
  split at h
  · next hw =>
    cases h
    refine .still rfl rfl rfl rfl (fun c => ?_) rfl rfl
    cases hs : p.isShutdown <;> simp [Held, hw]
  · next hw =>
    split at h
    · cases h
      exact .still rfl rfl rfl rfl (fun c => by simp [Held, hw]) rfl rfl
    · cases h
      refine .still rfl rfl rfl rfl (fun c => ?_) rfl rfl
      cases hs : p.isShutdown <;> simp [Held, hw]
  · next hw =>
    cases h
    exact .still rfl rfl rfl rfl (fun c => by simp [Held, hw]) rfl rfl
  · next hw =>
    have hqt : ∀ w, (∀ c raw result, w ≠ .holding c raw result) → Effect p { p with worker := w } (.worker .process) := by
      intro w hne
      refine .still rfl rfl rfl rfl (fun c => ?_) rfl rfl
      constructor
      · rintro ⟨raw, result, hh⟩
        exact absurd hh (hne c raw result)
      · rintro ⟨raw, result, hh⟩
        cases hw.symm.trans hh
    split at h
    · cases h
      exact hqt _ (by simp)
    · split at h
      · cases h
        exact hqt _ (by simp)
      · split at h
        · cases h
          exact hqt _ (by simp)
        · cases h
          refine hqt _ ?_
          split <;> simp
  · next raw result hw =>
    split at h
    · next c hc =>
      cases h
      exact .take hw hc rfl
    · cases h
      exact .still rfl rfl rfl rfl (fun c => by simp [Held, hw]) rfl rfl
  · next hw =>
    cases h
    exact .settle hw rfl
  · next hw =>
    cases h
    exact .still rfl rfl rfl rfl (fun c => by simp [Held, hw]) rfl rfl
  · next hw =>
    cases h
    exact .still rfl rfl rfl rfl (fun c => by simp [Held, hw]) rfl rfl
  · cases h

theorem cleanupStep_effect {a} (h : p.cleanupStep a = some p') : Effect p p' (.cleanup a) := by
  unfold cleanupStep at h
  split at h
  · next hc =>
    cases h
    refine .quiet rfl rfl rfl rfl (fun _ => Iff.rfl) (fun c => ?_) Iff.rfl (fun cs hcs => ?_)
    · cases hs : p.isShutdown <;> simp [InCleanup, hc]
    · cases hs : p.isShutdown <;> simp [hs] at hcs
  · next hc =>
    cases h
    exact .stale hc rfl
  · next hc =>
    cases h
    exact .expire hc rfl
  · next hc =>
    cases h
    exact .quiet rfl rfl rfl rfl (fun _ => Iff.rfl) (fun c => by simp [InCleanup, hc]) Iff.rfl (fun cs hcs => by cases hcs)
  · cases h

theorem shutdownStep_effect {a} (h : p.shutdownStep a = some p') : Effect p p' (.shutdown a) := by
  have hsame : ∀ {q : CdpClient} {a : ShutdownAction}, q.nextId = p.nextId → q.requests = p.requests → q.pending = p.pending →
      q.worker = p.worker → q.cleanup = p.cleanup → q.closing ≠ .returned → p.closing ≠ .returned →
      Effect p q (.shutdown a) := by
    intro q a hn hr hp hw hc hq hp'
    refine .quiet rfl hn hr hp (fun c => ?_) (fun c => ?_) (iff_of_false hq hp') (fun cs hcs => ?_)
    · simp only [Held, hw]
    · simp only [InCleanup, hc]
    · rwa [hc] at hcs
  unfold shutdownStep at h
  split at h
  · next hc =>
    cases h
    exact hsame rfl rfl rfl rfl rfl (by simp) (by simp [hc])
  · next hc =>
    split at h
    · next hw =>
      cases h
      exact .quiet rfl rfl rfl rfl (fun c => by simp [Held, hw]) (fun _ => Iff.rfl) (by simp [hc]) fun _ hcs => hcs
    · cases h
      exact hsame rfl rfl rfl rfl rfl (by simp) (by simp [hc])
  · next hc =>
    split at h <;> cases h
    exact hsame rfl rfl rfl rfl rfl (by simp) (by simp [hc])
  · next hc =>
    split at h <;> cases h
    exact hsame rfl rfl rfl rfl rfl (by simp) (by simp [hc])
  · next hc =>
    cases h
    exact hsame rfl rfl rfl rfl rfl (by simp) (by simp [hc])
  · next hc =>
    split at h <;> cases h
    exact hsame rfl rfl rfl rfl rfl (by simp) (by simp [hc])
  · next hc =>
    cases h
    exact .sweep hc rfl
  · cases h

inductive PoolMove (p p' : CdpClient) (w : Nat) : PoolAction → Prop
  | take {calls rest} (hw : p.pool[w]? = some .idle) (ht : p.tasks = calls :: rest)
      (hp : p' = { p with tasks := rest, pool := p.pool.set w (.running calls none) }) : PoolMove p p' w .take
  | call {calls} (hw : p.pool[w]? = some (.running (calls + 1) none))
      (hp : p' = { p.enter true with pool := p.pool.set w (.running calls (some p.requests.length)) }) : PoolMove p p' w .call
  | send {calls c a x} (hw : p.pool[w]? = some (.running calls (some c))) (hx : p.requests[c]? = some x)
      (hs : p.sendStep c x a = some p') : PoolMove p p' w (.send c a)
  | get {calls c x} (hw : p.pool[w]? = some (.running calls (some c))) (hx : p.requests[c]? = some x)
      (hphase : x.phase = .returned ∨ x.phase = .declined) (hv : x.promise.isSome = true)
      (hp : p' = { p with pool := p.pool.set w (.running calls none) }) : PoolMove p p' w .get
  | done {calls} (hw : p.pool[w]? = some (.running calls none)) (hp : p' = { p with pool := p.pool.set w .idle }) :
      PoolMove p p' w .done
  | exit (hw : p.pool[w]? = some .idle) (hstop : p.stopped = true) (ht : p.tasks = [])
      (hp : p' = { p with pool := p.pool.set w .ended }) : PoolMove p p' w .exit

theorem poolStep_move {w a} (h : p.poolStep w a = some p') : PoolMove p p' w a := by
  unfold poolStep at h
  split at h
  · next hw =>
    split at h <;> cases h
    next ht => exact .take hw ht rfl
  · next hw =>
    cases h
    exact .call hw rfl
  · next hw =>
    split at h
    · next hx =>
      obtain ⟨rfl, hs⟩ := Option.ite_none_right_eq_some.1 h
      exact .send hw hx hs
    · cases h
  · next hw =>
    split at h
    · next hx =>
      obtain ⟨hr, ⟨⟩⟩ := Option.ite_none_right_eq_some.1 h
      exact .get hw hx hr.1 hr.2 rfl
    · cases h
  · next hw =>
    cases h
    exact .done hw rfl
  · next hw =>
    obtain ⟨hr, ⟨⟩⟩ := Option.ite_none_right_eq_some.1 h
    exact .exit hw hr.1 (isEmpty_iff.1 hr.2) rfl
  · cases h

theorem poolStep_effect {w a} (h : p.poolStep w a = some p') : Effect p p' (.pool w a) := by
  cases poolStep_move h with
  | take _ _ hp | get _ _ _ _ hp | done _ hp | exit _ _ _ hp =>
    subst hp
    exact .still rfl rfl rfl rfl (fun _ => Iff.rfl) rfl rfl
  | call _ hp =>
    subst hp
    exact .enter true rfl rfl rfl rfl rfl rfl rfl
  | send _ hx hs => exact .send (.inr ⟨w, rfl⟩) hx hs

theorem handleMessage_effect {message callbacks} (h : p.handleMessage message callbacks = some p') :
    Effect p p' (.handleMessage message callbacks) := by
  unfold handleMessage at h
  split at h
  · cases h
    exact .still rfl rfl rfl rfl (fun _ => Iff.rfl) rfl rfl
  · split at h
    · split at h
      · cases h
      · next hw =>
        cases h
        exact .still rfl rfl rfl rfl (fun c => by simp [Held, hw]) rfl rfl
      · cases h
        exact .still rfl rfl rfl rfl (fun _ => Iff.rfl) rfl rfl
    · cases h

theorem exec_effect (h : p.exec e = some p') : Effect p p' e := by
  cases e with
  | sendHost =>
    cases h
    exact .enter false rfl rfl rfl rfl rfl rfl rfl
  | caller c a =>
    simp only [exec] at h
    split at h
    · next hx =>
      split at h
      · cases h
      · exact .send (.inl rfl) hx h
    · cases h
  | handleMessage message callbacks => exact handleMessage_effect h
  | worker a => exact workerStep_effect h
  | cleanup a => exact cleanupStep_effect h
  | shutdown a => exact shutdownStep_effect h
  | pool w a => exact poolStep_effect h

/-! ### The threads -/

def WorkerOk (es : List CdpEvent) : WorkerPhase → Prop
  | .handling message callbacks => .handleMessage message callbacks ∈ es
  | .parsed raw result => ResponseSeen es raw result
  | .holding _ raw result => ResponseSeen es raw result
  | _ => True

theorem WorkerOk.mono {fs w} (h : WorkerOk es w) (hsub : es ⊆ fs) : WorkerOk fs w := by
  cases w with
  | handling message callbacks => exact hsub h
  | parsed raw result | holding c raw result => exact ResponseSeen.mono h hsub
  | top | locking | tested | asleep | dispatching callbacks | draining | ended => trivial

structure ThreadInv (es : List CdpEvent) (p : CdpClient) : Prop where
  worker : WorkerOk es p.worker
  queue : ∀ m ∈ p.queue, .handleMessage m.1 m.2 ∈ es
  flagged : p.closing ≠ .idle → .shutdown .flag ∈ es
  workerEnded : p.closing ∉ [.idle, .flagged, .notified] → p.worker = .ended
  cleanupEnded : p.closing ∉ [.idle, .flagged, .notified, .workerJoined] → p.cleanup = .ended

theorem ThreadInv.mono {fs} (h : ThreadInv es p) (hsub : es ⊆ fs) (hworker : p'.worker = p.worker)
    (hq : p'.queue = p.queue) (hcleanup : p'.cleanup = p.cleanup) (hclosing : p'.closing = p.closing) :
    ThreadInv fs p' := by
  constructor
  · rw [hworker]
    exact h.worker.mono hsub
  · rw [hq]
    exact fun m hm => hsub (h.queue m hm)
  · rw [hclosing]
    exact fun hc => hsub (h.flagged hc)
  · rw [hclosing, hworker]
    exact h.workerEnded
  · rw [hclosing, hcleanup]
    exact h.cleanupEnded

theorem ThreadInv.workerMoves (h : ThreadInv es p) {e} (hne : p.worker ≠ .ended) (hw : WorkerOk (es ++ [e]) p'.worker)
    (hq : ∀ m ∈ p'.queue, m ∈ p.queue) (hcleanup : p'.cleanup = p.cleanup) (hclosing : p'.closing = p.closing) :
    ThreadInv (es ++ [e]) p' := by
  have hsub : es ⊆ es ++ [e] := subset_append_left es [e]
  have herl : ¬p.closing ∉ [.idle, .flagged, .notified] := fun hc => hne (h.workerEnded hc)
  constructor
  · exact hw
  · exact fun m hm => hsub (h.queue m (hq m hm))
  · rw [hclosing]
    exact fun hc => hsub (h.flagged hc)
  · rw [hclosing]
    exact fun hc => absurd hc herl
  · rw [hclosing, hcleanup]
    exact h.cleanupEnded

theorem workerStep_frame {a} (h : p.workerStep a = some p') :
    p.worker ≠ .ended ∧ (∀ m ∈ p'.queue, m ∈ p.queue) ∧ p'.cleanup = p.cleanup ∧ p'.closing = p.closing := by
  simp only [workerStep] at h
  split at h <;> (try split at h) <;> (try split at h) <;> (try split at h) <;> cases h <;> simp_all

theorem ThreadInv.workerStep (h : ThreadInv es p) {a} (hs : p.workerStep a = some p') :
    ThreadInv (es ++ [.worker a]) p' := by
  have hsub : es ⊆ es ++ [.worker a] := List.subset_append_left es _
  obtain ⟨hne, hq, hcleanup, hclosing⟩ := workerStep_frame hs
  refine h.workerMoves hne ?_ hq hcleanup hclosing
  have hworker := h.worker
  unfold CdpClient.workerStep at hs
  split at hs
  · cases hs
    cases p.isShutdown <;> trivial
  · split at hs
    · next message callbacks rest hqueue =>
      cases hs
      exact hsub (h.queue (message, callbacks) (by rw [hqueue]; exact List.mem_cons_self))
    · cases hs
      cases p.isShutdown <;> trivial
  · cases hs
    trivial
  · next message callbacks hw =>
    rw [hw] at hworker
    split at hs
    · cases hs
      trivial
    · split at hs
      · cases hs
        trivial
      · next message =>
        split at hs
        · next raw result hr =>
          cases hs
          exact ⟨message, callbacks, hsub hworker, hr⟩
        · cases hs
          cases isEvent message <;> trivial
  · next raw result hw =>
    rw [hw] at hworker
    split at hs
    · cases hs
      exact ResponseSeen.mono hworker hsub
    · cases hs
      trivial
  · cases hs
    trivial
  · cases hs
    trivial
  · cases hs
    trivial
  · cases hs

theorem cleanupStep_frame {a} (h : p.cleanupStep a = some p') :
    p.cleanup ≠ .ended ∧ p'.worker = p.worker ∧ p'.queue = p.queue ∧ p'.closing = p.closing := by
  simp only [cleanupStep] at h
  split at h <;> cases h <;> simp_all

theorem ThreadInv.cleanupStep (h : ThreadInv es p) {a} (hs : p.cleanupStep a = some p') :
    ThreadInv (es ++ [.cleanup a]) p' := by
  have hsub : es ⊆ es ++ [.cleanup a] := List.subset_append_left es _
  obtain ⟨hne, hw, hq, hc⟩ := cleanupStep_frame hs
  constructor
  · rw [hw]
    exact h.worker.mono hsub
  · rw [hq]
    exact fun m hm => hsub (h.queue m hm)
  · rw [hc]
    exact fun hcl => hsub (h.flagged hcl)
  · rw [hc, hw]
    exact h.workerEnded
  · rw [hc]
    exact fun hcl => absurd (h.cleanupEnded hcl) hne

theorem ThreadInv.shutdownStep (h : ThreadInv es p) {a} (hs : p.shutdownStep a = some p') :
    ThreadInv (es ++ [.shutdown a]) p' := by
  have hsub : es ⊆ es ++ [.shutdown a] := List.subset_append_left es _
  have hque : ∀ {q : CdpClient}, q.queue = p.queue → ∀ m ∈ q.queue, .handleMessage m.1 m.2 ∈ es ++ [.shutdown a] := by
    intro q hq m hm
    rw [hq] at hm
    exact hsub (h.queue m hm)
  have hlate : p.closing ∉ [.idle, .flagged, .notified, .workerJoined] → ∀ {q : CdpClient}, q.worker = p.worker →
      q.queue = p.queue → q.cleanup = p.cleanup → ThreadInv (es ++ [.shutdown a]) q := by
    intro hc q hw hq hcl
    exact ⟨hw ▸ h.worker.mono hsub, hque hq, fun _ => hsub (h.flagged fun hi => hc (by simp [hi])),
      fun _ => hw.trans (h.workerEnded fun hi => hc (by simp_all)), fun _ => hcl.trans (h.cleanupEnded hc)⟩
  unfold CdpClient.shutdownStep at hs
  split at hs
  · cases hs
    exact ⟨h.worker.mono hsub, hque rfl, fun _ => by simp, fun hcl => absurd (by simp) hcl, fun hcl => absurd (by simp) hcl⟩
  · next hc =>
    have hflag := hsub (h.flagged (by simp [hc]))
    split at hs
    · cases hs
      exact ⟨trivial, hque rfl, fun _ => hflag, fun hcl => absurd (by simp) hcl, fun hcl => absurd (by simp) hcl⟩
    · cases hs
      exact ⟨h.worker.mono hsub, hque rfl, fun _ => hflag, fun hcl => absurd (by simp) hcl, fun hcl => absurd (by simp) hcl⟩
  · next hc =>
    split at hs <;> cases hs
    next hw =>
    exact ⟨h.worker.mono hsub, hque rfl, fun _ => hsub (h.flagged (by simp [hc])), fun _ => hw,
      fun hcl => absurd (by simp) hcl⟩
  · next hc =>
    split at hs <;> cases hs
    next hcl =>
    exact ⟨h.worker.mono hsub, hque rfl, fun _ => hsub (h.flagged (by simp [hc])),
      fun _ => h.workerEnded (by simp [hc]), fun _ => hcl⟩
  · next hc =>
    cases hs
    exact hlate (by simp [hc]) rfl rfl rfl
  · next hc =>
    split at hs <;> cases hs
    exact hlate (by simp [hc]) rfl rfl rfl
  · next hc =>
    cases hs
    exact hlate (by simp [hc]) rfl rfl rfl
  · cases hs

theorem sendStep_threads {a} (h : p.sendStep c x a = some p') :
    p'.nextId = p.nextId ∧ p'.worker = p.worker ∧ p'.queue = p.queue ∧ p'.cleanup = p.cleanup ∧ p'.closing = p.closing ∧
      p'.tasks = p.tasks ∧ p'.pool = p.pool ∧ p'.requests.length = p.requests.length := by
  cases a <;> simp only [sendStep] at h <;> split at h <;> cases h <;> simp [setRequest]

theorem ThreadInv.step (h : ThreadInv es p) (he : p.exec e = some p') : ThreadInv (es ++ [e]) p' := by
  have hsub : es ⊆ es ++ [e] := subset_append_left es _
  cases e with
  | sendHost =>
    cases he
    exact h.mono hsub rfl rfl rfl rfl
  | caller c a =>
    simp only [exec] at he
    split at he
    · split at he
      · cases he
      · obtain ⟨-, hw, hq, hc, hcl, -⟩ := sendStep_threads he
        exact h.mono hsub hw hq hc hcl
    · cases he
  | handleMessage message callbacks =>
    have hq : ∀ m ∈ p.queue ++ [(message, callbacks)], .handleMessage m.1 m.2 ∈ es ++ [.handleMessage message callbacks] := by
      intro m hm
      rcases mem_append.1 hm with hm | hm
      · exact hsub (h.queue m hm)
      · obtain rfl := mem_singleton.1 hm
        simp
    simp only [exec, CdpClient.handleMessage] at he
    split at he
    · cases he
      exact h.mono hsub rfl rfl rfl rfl
    · next hns =>
      split at he
      · split at he
        · cases he
        · next hw =>
          cases he
          have hidle : p.closing = .idle := by simpa [isShutdown] using hns
          exact ⟨trivial, hq, fun hc => absurd hidle hc, fun hc => absurd (by simp [hidle]) hc,
            fun hc => absurd (by simp [hidle]) hc⟩
        · cases he
          exact ⟨h.worker.mono hsub, hq, fun hc => hsub (h.flagged hc), h.workerEnded, h.cleanupEnded⟩
      · cases he
  | worker a => exact h.workerStep he
  | cleanup a => exact h.cleanupStep he
  | shutdown a => exact h.shutdownStep he
  | pool w a =>
    cases poolStep_move he with
    | take _ _ hp | call _ hp | get _ _ _ _ hp | done _ hp | exit _ _ _ hp =>
      subst hp
      exact h.mono hsub rfl rfl rfl rfl
    | send _ _ hs =>
      obtain ⟨-, hw, hq, hc, hcl, -⟩ := sendStep_threads hs
      exact h.mono hsub hw hq hc hcl

end CdpClient

end CloudeLoader.Cdp
