import CloudeLoader.Cdp.Requests

/-!
# How many steps the threads of the CDP client have left

After `m_shutdown` was set, the worker, the cleanup thread, the threads of the pool and `shutdown()` itself can only take a
bounded number of steps (`Light.exec_rank`), whatever the threads outside the client do.
-/

namespace CloudeLoader.Cdp

open JsonDoc Transition List Option

variable {x' : CdpRequest}

/-- The steps of the threads `shutdown()` depends on, and its own. -/
def CdpEvent.internal : CdpEvent → Bool
  | .worker _ => true
  | .cleanup _ => true
  | .shutdown _ => true
  | .pool _ _ => true
  | _ => false

def SendPhase.rank : SendPhase → Nat
  | .entered => 4
  | .passed => 3
  | .registered => 2
  | .failed => 1
  | .refused => 1
  | .declined => 0
  | .returned => 0

def SendPhase.admitted : SendPhase → Bool
  | .passed => true
  | .registered => true
  | .failed => true
  | .returned => true
  | _ => false

def ShutdownPhase.rank : ShutdownPhase → Nat
  | .idle => 7
  | .flagged => 6
  | .notified => 5
  | .workerJoined => 4
  | .cleanupJoined => 3
  | .poolStopped => 2
  | .poolJoined => 1
  | .returned => 0

def taskRank (tasks : List Nat) : Nat := (tasks.map fun calls => 7 * calls + 2).sum

def WorkerPhase.rank : WorkerPhase → Nat
  | .tested => 6
  | .asleep => 5
  | .locking => 4
  | .parsed _ _ => 4
  | .handling _ _ => 3
  | .holding _ _ _ => 3
  | .dispatching callbacks => 3 + taskRank callbacks
  | .top => 2
  | .draining => 1
  | .ended => 0

namespace CdpClient

def admitted (p : CdpClient) : Nat := p.requests.countP (·.phase.admitted)

def cleanupRank (p : CdpClient) : Nat :=
  match p.cleanup with
  | .checked => 3 + p.admitted
  | .holding cs => 2 + cs.length
  | .waiting => 1
  | .ended => 0

def poolRank (p : CdpClient) (w : PoolWorker) : Nat :=
  match w with
  | .idle => 1
  | .ended => 0
  | .running calls none => 7 * calls + 2
  | .running calls (some c) => 7 * calls + 3 + (p.requests[c]?).elim 0 (·.phase.rank)

/-- Falls with every internal step once `m_shutdown` is set, and never rises. -/
def rank (p : CdpClient) : Nat :=
  p.closing.rank + p.worker.rank + p.cleanupRank + taskRank p.tasks + (p.pool.map p.poolRank).sum

/-! ### How a request changes -/

inductive ReqStep (p : CdpClient) (c : Nat) (x : CdpRequest) : CdpRequest → Prop
  | same : ReqStep p c x x
  | complete {v} (h : p.Held c ∨ p.InCleanup c ∨ p.closing = .poolJoined) : ReqStep p c x (x.complete v)
  | test (h : x.phase = .entered) : ReqStep p c x { x with phase := if p.isShutdown then .refused else .passed }
  | refuse (h : x.phase = .refused) : ReqStep p c x { x.complete .shutdown with phase := .declined }
  | register (h : x.phase = .passed) : ReqStep p c x { x with phase := .registered }
  | transmit {ok : Bool} (h : x.phase = .registered) : ReqStep p c x { x with phase := if ok then .returned else .failed }
  | fail (h : x.phase = .failed) : ReqStep p c x { x.complete .sendFailed with phase := .returned }

variable {p p' : CdpClient} {e : CdpEvent} {es : List CdpEvent} {c : Nat} {x : CdpRequest}

theorem sendStep_request {a} (h : p.sendStep c x a = some p') :
    ∃ x', p'.requests = p.requests.set c x' ∧ ReqStep p c x x' := by
  cases a <;> simp only [sendStep] at h <;> split at h <;> cases h
  · next hp => exact ⟨_, rfl, .test hp⟩
  · next hp => exact ⟨_, rfl, .refuse hp⟩
  · next hp => exact ⟨_, rfl, .register hp⟩
  · next hp => exact ⟨_, rfl, .transmit hp⟩
  · next hp => exact ⟨_, rfl, .fail hp⟩

theorem exec_request (h : p.exec e = some p') (hx : p.requests[c]? = some x) :
    ∃ x', p'.requests[c]? = some x' ∧ ReqStep p c x x' := by
  have hlt := lt_of_getElem? hx
  have hmod : ∀ {d : Nat} {v : Completion}, p.Held d ∨ p.InCleanup d ∨ p.closing = .poolJoined →
      p'.requests = p.requests.modify d (·.complete v) → ∃ x', p'.requests[c]? = some x' ∧ ReqStep p c x x' := by
    intro d v hd hp
    rw [hp]
    by_cases hcd : d = c
    · subst hcd
      exact ⟨_, by rw [List.getElem?_modify_eq, hx]; rfl, .complete hd⟩
    · exact ⟨x, (List.getElem?_modify_ne _ _ hcd).trans hx, .same⟩
  cases exec_effect h with
  | quiet _ _ hreq => exact ⟨x, by rw [hreq, hx], .same⟩
  | enter pooled _ _ hreq => exact ⟨x, by rw [hreq, List.getElem?_append_left hlt, hx], .same⟩
  | @send _ d y a _ hy hs =>
    obtain ⟨y', hreq, hstep⟩ := sendStep_request hs
    by_cases hcd : d = c
    · subst hcd
      cases hx.symm.trans hy
      exact ⟨y', by rw [hreq, List.getElem?_set_self hlt], hstep⟩
    · exact ⟨x, by rw [hreq, List.getElem?_set_ne hcd, hx], .same⟩
  | take _ _ hp | stale _ hp => exact ⟨x, by rw [hp, hx], .same⟩
  | @settle d raw result hw hp => exact hmod (.inl ⟨raw, result, hw⟩) (by rw [hp])
  | @expire d ds hc hp => exact hmod (.inr (.inl ⟨_, hc, mem_cons_self⟩)) (by rw [hp])
  | sweep hc hp =>
    rw [hp]
    by_cases ht : p.pending x.id = some c
    · exact ⟨x.complete .shutdown, by simp [failAll, List.getElem?_mapIdx, hx, ht], .complete (.inr (.inr hc))⟩
    · exact ⟨x, by simp [failAll, List.getElem?_mapIdx, hx, ht], .same⟩

theorem exec_request_back (h : p.exec e = some p') (hx' : p'.requests[c]? = some x') :
    (∃ x, p.requests[c]? = some x ∧ ReqStep p c x x') ∨
      (c = p.requests.length ∧ p'.pending = p.pending ∧ ∃ pooled, x' = ⟨p.nextId, .entered, false, none, 0, pooled⟩) := by
  by_cases hlt : c < p.requests.length
  · obtain ⟨y, hy, hstep⟩ := exec_request h (getElem?_eq_getElem hlt)
    cases hx'.symm.trans hy
    exact .inl ⟨_, getElem?_eq_getElem hlt, hstep⟩
  · have hlen := lt_of_getElem? hx'
    cases exec_effect h with
    | enter pooled _ _ hreq hpend =>
      right
      rw [hreq] at hx' hlen
      rw [length_append, length_singleton] at hlen
      obtain rfl : c = p.requests.length := by omega
      exact ⟨rfl, hpend, pooled, by simpa using hx'.symm⟩
    | quiet _ _ hreq =>
      rw [hreq] at hlen
      omega
    | send _ _ hs =>
      rw [(sendStep_threads hs).2.2.2.2.2.2.2] at hlen
      omega
    | take _ _ hp | stale _ hp | settle _ hp | expire _ hp =>
      rw [hp] at hlen
      simp at hlen
      omega
    | sweep _ hp =>
      rw [hp] at hlen
      simp [failAll] at hlen
      omega

theorem ReqStep.id_eq (h : ReqStep p c x x') : x'.id = x.id := by
  cases h with
  | complete | refuse | fail => exact complete_id x _
  | same | test | register | transmit => rfl

theorem ReqStep.completed (h : ReqStep p c x x') (hc : x.completed = true) : x'.completed = true := by
  cases h with
  | complete | refuse | fail => exact complete_completed x _
  | same | test | register | transmit => exact hc

theorem ReqStep.rank_le (h : ReqStep p c x x') : x'.phase.rank ≤ x.phase.rank := by
  cases h with
  | same => exact Nat.le_refl _
  | complete => rw [complete_phase]
  | test hp => rw [hp]; cases p.isShutdown <;> simp [SendPhase.rank]
  | refuse hp | register hp | fail hp => simp [hp, SendPhase.rank]
  | @transmit ok hp => rw [hp]; cases ok <;> simp [SendPhase.rank]

theorem ReqStep.admitted_eq (h : ReqStep p c x x') (hs : p.isShutdown = true) :
    x'.phase.admitted = x.phase.admitted := by
  cases h with
  | same => rfl
  | complete => rw [complete_phase]
  | test hp => simp [hp, hs, SendPhase.admitted]
  | refuse hp | register hp | fail hp => simp [hp, SendPhase.admitted]
  | @transmit ok hp => rw [hp]; cases ok <;> rfl

theorem ReqStep.placed (h : ReqStep p c x x') (hp : x.phase.placed = true) : x'.phase.placed = true := by
  cases h with
  | same => exact hp
  | complete => rwa [complete_phase]
  | test h | refuse h => rw [h] at hp; cases hp
  | register | fail => rfl
  | @transmit ok => cases ok <;> rfl

theorem complete_promise_eq {v} (hp : x.promise.isSome = x.completed) :
    (x.complete v).promise.isSome = (x.complete v).completed := by
  unfold CdpRequest.complete
  split
  · exact hp
  · rfl

theorem ReqStep.promise_eq (h : ReqStep p c x x') (hp : x.promise.isSome = x.completed) :
    x'.promise.isSome = x'.completed := by
  cases h with
  | complete | refuse | fail => exact complete_promise_eq hp
  | same | test | register | transmit => exact hp

theorem ReqStep.declined (h : ReqStep p c x x') (hd : x.phase = .declined → x.completed = true)
    (hd' : x'.phase = .declined) : x'.completed = true := by
  cases h with
  | complete | refuse => exact complete_completed x _
  | same => exact hd hd'
  | test hp => cases hs : p.isShutdown <;> simp [hs] at hd'
  | register | fail => cases hd'
  | @transmit ok => cases ok <;> cases hd'

/-! ### The number of steps -/

structure Light (p : CdpClient) : Prop where
  table : ∀ {i c}, p.pending i = some c → ∃ x, p.requests[c]? = some x ∧ x.id = i ∧ x.phase.placed = true
  promise_eq : ∀ {c : Nat} {x}, p.requests[c]? = some x → x.promise.isSome = x.completed
  declined : ∀ {c : Nat} {x}, p.requests[c]? = some x → x.phase = .declined → x.completed = true
  waits : ∀ {w calls c : Nat}, p.pool[w]? = some (.running calls (some c)) → c < p.requests.length
  tasks : p.stopped = true → p.tasks = []

theorem exec_pending {i} (h : p.exec e = some p') (hi : p'.pending i = some c) :
    p.pending i = some c ∨ ∃ x, p'.requests[c]? = some x ∧ x.id = i ∧ x.phase = .registered := by
  cases exec_effect h with
  | quiet _ _ _ hpend => exact .inl (hpend ▸ hi)
  | enter _ _ _ _ hpend => exact .inl (hpend ▸ hi)
  | @send _ d x a _ hx hs =>
    have hlt := lt_of_getElem? hx
    cases a <;> simp only [sendStep] at hs <;> split at hs <;> cases hs
    · exact .inl hi
    · exact .inl hi
    · rcases update_some hi with hi | ⟨rfl, rfl⟩
      · exact .inl hi
      · exact .inr ⟨_, getElem?_set_self hlt, rfl, rfl⟩
    · exact .inl hi
    · exact .inl (update_none hi).2
  | take _ _ hp =>
    rw [hp] at hi
    exact .inl (update_none hi).2
  | settle _ hp | expire _ hp => exact .inl (by rw [hp] at hi; exact hi)
  | stale _ hp =>
    rw [hp] at hi
    exact .inl (filter_eq_some_iff.1 hi).1
  | sweep _ hp =>
    rw [hp] at hi
    cases hi

structure Frame (p p' : CdpClient) (e : CdpEvent) : Prop where
  closing : p'.closing = p.closing ∨ ∃ a, e = .shutdown a
  cleanup : p'.cleanup = p.cleanup ∨ ∃ a, e = .cleanup a
  pool : p'.pool = p.pool ∨ ∃ w a, e = .pool w a
  worker : p'.worker = p.worker ∨ (∃ a, e = .worker a) ∨ p.worker = .asleep ∧ p.closing = .idle ∨
    p.worker = .asleep ∧ e = .shutdown .notify
  tasks : p'.tasks = p.tasks ∨ e.internal = true

theorem exec_frame (h : p.exec e = some p') : Frame p p' e := by
  cases e with
  | sendHost =>
    cases h
    exact ⟨.inl rfl, .inl rfl, .inl rfl, .inl rfl, .inl rfl⟩
  | caller c a =>
    simp only [exec] at h
    split at h
    · split at h
      · cases h
      · obtain ⟨-, hw, -, hcl, hc, ht, hp, -⟩ := sendStep_threads h
        exact ⟨.inl hc, .inl hcl, .inl hp, .inl hw, .inl ht⟩
    · cases h
  | handleMessage message callbacks =>
    simp only [exec, handleMessage] at h
    split at h
    · cases h
      exact ⟨.inl rfl, .inl rfl, .inl rfl, .inl rfl, .inl rfl⟩
    · next hns =>
      have hidle : p.closing = .idle := by simpa [isShutdown] using hns
      split at h
      · split at h
        · cases h
        · next hw =>
          cases h
          exact ⟨.inl rfl, .inl rfl, .inl rfl, .inr (.inr (.inl ⟨hw, hidle⟩)), .inl rfl⟩
        · cases h
          exact ⟨.inl rfl, .inl rfl, .inl rfl, .inl rfl, .inl rfl⟩
      · cases h
  | worker a =>
    have hsame : p'.closing = p.closing ∧ p'.cleanup = p.cleanup ∧ p'.pool = p.pool := by
      simp only [exec, workerStep] at h
      split at h <;> (try split at h) <;> (try split at h) <;> (try split at h) <;> cases h <;> exact ⟨rfl, rfl, rfl⟩
    exact ⟨.inl hsame.1, .inl hsame.2.1, .inl hsame.2.2, .inr (.inl ⟨a, rfl⟩), .inr rfl⟩
  | cleanup a =>
    have hsame : p'.closing = p.closing ∧ p'.pool = p.pool ∧ p'.worker = p.worker := by
      simp only [exec, cleanupStep] at h
      split at h <;> cases h <;> exact ⟨rfl, rfl, rfl⟩
    exact ⟨.inl hsame.1, .inr ⟨a, rfl⟩, .inl hsame.2.1, .inl hsame.2.2, .inr rfl⟩
  | shutdown a =>
    have hsame : p'.cleanup = p.cleanup ∧ p'.pool = p.pool ∧
        (p'.worker = p.worker ∨ p.worker = .asleep ∧ CdpEvent.shutdown a = .shutdown .notify) := by
      simp only [exec, shutdownStep] at h
      split at h <;> (try split at h) <;> cases h <;> first
        | exact ⟨rfl, rfl, .inl rfl⟩
        | next hw => exact ⟨rfl, rfl, .inr ⟨hw, rfl⟩⟩
    exact ⟨.inr ⟨a, rfl⟩, .inl hsame.1, .inl hsame.2.1, hsame.2.2.imp_right fun hw => .inr (.inr hw), .inr rfl⟩
  | pool w a =>
    have hsame : p'.closing = p.closing ∧ p'.cleanup = p.cleanup ∧ p'.worker = p.worker := by
      cases poolStep_move h with
      | take _ _ hp | get _ _ _ _ hp | done _ hp | exit _ _ _ hp => exact ⟨by rw [hp], by rw [hp], by rw [hp]⟩
      | call _ hp => exact ⟨by rw [hp]; rfl, by rw [hp]; rfl, by rw [hp]; rfl⟩
      | send _ _ hs =>
        obtain ⟨-, hw, -, hcl, hc, -⟩ := sendStep_threads hs
        exact ⟨hc, hcl, hw⟩
    exact ⟨.inl hsame.1, .inl hsame.2.1, .inr ⟨w, a, rfl⟩, .inl hsame.2.2, .inr rfl⟩

theorem exec_waiting {w calls : Nat} (h : p.exec e = some p') (hw : p'.pool[w]? = some (.running calls (some c))) :
    p.pool[w]? = some (.running calls (some c)) ∨ c = p.requests.length ∧ p'.requests.length = p.requests.length + 1 := by
  have hset : ∀ {v : Nat} {b : PoolWorker}, p'.pool = p.pool.set v b → b = .running calls (some c) ∨
      p.pool[w]? = some (.running calls (some c)) := by
    intro v b hp
    rw [hp, getElem?_set] at hw
    split at hw
    · split at hw
      · exact .inl (some.inj hw)
      · cases hw
    · exact .inr hw
  rcases (exec_frame h).pool with hpool | ⟨v, a, rfl⟩
  · exact .inl (hpool ▸ hw)
  · cases poolStep_move h with
    | take _ _ hp | get _ _ _ _ hp | done _ hp | exit _ _ _ hp =>
      rcases hset (by rw [hp]) with hb | hw
      · cases hb
      · exact .inl hw
    | call _ hp =>
      rcases hset (by rw [hp]) with hb | hw
      · cases hb
        exact .inr ⟨rfl, by simp [hp, enter]⟩
      · exact .inl hw
    | send _ _ hs => exact .inl ((sendStep_threads hs).2.2.2.2.2.2.1 ▸ hw)

theorem exec_tasks (htas : p.stopped = true → p.tasks = []) (h : p.exec e = some p') (hstop : p'.stopped = true) :
    p'.tasks = [] := by
  have hsame : p'.closing = p.closing → p'.tasks = p.tasks → p'.tasks = [] := by
    intro hc ht
    unfold stopped at hstop htas
    rw [hc] at hstop
    rw [ht, htas hstop]
  have hfrm := exec_frame h
  cases e with
  | sendHost | caller | handleMessage =>
    exact hsame (hfrm.closing.resolve_right (by simp)) (hfrm.tasks.resolve_right (by simp [CdpEvent.internal]))
  | worker a =>
    simp only [exec, workerStep] at h
    split at h <;> (try split at h) <;> (try split at h) <;> (try split at h) <;> cases h <;> try exact hsame rfl rfl
    -- what is left are callbacks that are added to a pool that was not stopped
    next hns => exact absurd hstop hns
  | cleanup a =>
    simp only [exec, cleanupStep] at h
    split at h <;> cases h <;> exact hsame rfl rfl
  | shutdown a =>
    simp only [exec, shutdownStep] at h
    split at h
    · cases h
      simp [stopped] at hstop
    · split at h <;> cases h <;> simp [stopped] at hstop
    · split at h <;> cases h
      simp [stopped] at hstop
    · split at h <;> cases h
      simp [stopped] at hstop
    · cases h
      rfl
    · next hc =>
      split at h <;> cases h
      exact htas (by simp [stopped, hc])
    · next hc =>
      cases h
      exact htas (by simp [stopped, hc])
    · cases h
  | pool w a =>
    have hc := hfrm.closing.resolve_right (by simp)
    cases poolStep_move h with
    | take _ ht hp =>
      have hstop' : p.stopped = true := by rwa [hp] at hstop
      cases ht.symm.trans (htas hstop')
    | call _ hp => exact hsame hc (by rw [hp]; rfl)
    | get _ _ _ _ hp | done _ hp | exit _ _ _ hp => exact hsame hc (by rw [hp])
    | send _ _ hs => exact hsame hc (sendStep_threads hs).2.2.2.2.2.1

theorem Light.step (hl : Light p) (h : p.exec e = some p') : Light p' := by
  constructor
  · intro i c hi
    rcases exec_pending h hi with hi | ⟨x, hx, hid, hr⟩
    · obtain ⟨x, hx, hid, hpl⟩ := hl.table hi
      obtain ⟨x', hx', hstep⟩ := exec_request h hx
      exact ⟨x', hx', hstep.id_eq.trans hid, hstep.placed hpl⟩
    · exact ⟨x, hx, hid, by rw [hr]; rfl⟩
  · intro c x' hx'
    rcases exec_request_back h hx' with ⟨x, hx, hstep⟩ | ⟨-, -, pooled, rfl⟩
    · exact hstep.promise_eq (hl.promise_eq hx)
    · rfl
  · intro c x' hx' hd
    rcases exec_request_back h hx' with ⟨x, hx, hstep⟩ | ⟨-, -, pooled, rfl⟩
    · exact hstep.declined (hl.declined hx) hd
    · cases hd
  · intro w calls c hw
    have hle := exec_length_le h
    rcases exec_waiting h hw with hw | ⟨rfl, hlen⟩
    · exact Nat.lt_of_lt_of_le (hl.waits hw) hle
    · omega
  · exact exec_tasks hl.tasks h

theorem start_light : Light start := by
  refine ⟨nofun, fun hx => by simp [start] at hx, fun hx => by simp [start] at hx, fun {w} {_} {_} hw => ?_, nofun⟩
  have hidle : ∀ b ∈ start.pool, b = .idle := by simp [start]
  cases hidle _ (mem_of_getElem? hw)

theorem run_light (h : run exec start es = some p) : Light p :=
  run_induction (P := fun _ p => Light p) start_light (fun _ hl he => hl.step he) h

theorem countP_eq_countP_range {α : Type} (f : α → Bool) (l : List α) :
    l.countP f = (range l.length).countP fun i => (l[i]?).any f := by
  induction l with
  | nil => rfl
  | cons a l ih =>
    rw [length_cons, range_succ_eq_map, countP_cons, countP_cons, countP_map]
    congr 1

theorem Light.length_stale_le (hl : Light p) (stale : List Nat) :
    ((range p.requests.length).filter fun c => p.tabled c && c ∈ stale).length ≤ p.admitted := by
  rw [← countP_eq_length_filter, admitted, countP_eq_countP_range _ p.requests]
  refine countP_mono_left fun c hc ht => ?_
  have hx := getElem?_eq_getElem (mem_range.1 hc)
  have htab := (tabled_iff hx).1 (by simp_all)
  obtain ⟨y, hy, -, hpl⟩ := hl.table htab
  rw [hy]
  cases hph : y.phase <;> simp_all [SendPhase.placed, SendPhase.admitted]

theorem admitted_eq (hs : p.isShutdown = true) (h : p.exec e = some p') : p'.admitted = p.admitted := by
  have htake : (p'.requests.take p.requests.length).map (·.phase.admitted) = p.requests.map (·.phase.admitted) := by
    refine ext_getElem? fun c => ?_
    rw [getElem?_map, getElem?_map, getElem?_take]
    split
    · next hlt =>
      obtain ⟨x', hx', hstep⟩ := exec_request h (getElem?_eq_getElem hlt)
      rw [hx', getElem?_eq_getElem hlt, map_some, map_some, hstep.admitted_eq hs]
    · next hlt => rw [getElem?_eq_none (by omega)]
  have hdrop : (p'.requests.drop p.requests.length).countP (·.phase.admitted) = 0 := by
    refine countP_eq_zero.2 fun x' hx' => ?_
    obtain ⟨i, hi⟩ := mem_iff_getElem?.1 hx'
    rw [getElem?_drop] at hi
    rcases exec_request_back h hi with ⟨x, hx, -⟩ | ⟨-, -, pooled, rfl⟩
    · have := lt_of_getElem? hx
      omega
    · simp [SendPhase.admitted]
  have hcnt : ∀ l : List CdpRequest, l.countP (·.phase.admitted) = (l.map (·.phase.admitted)).countP id := by
    intro l
    rw [countP_map]
    rfl
  calc p'.admitted
      = (p'.requests.take p.requests.length ++ p'.requests.drop p.requests.length).countP (·.phase.admitted) := by
        rw [take_append_drop]; rfl
    _ = (p'.requests.take p.requests.length).countP (·.phase.admitted) := by rw [countP_append, hdrop, Nat.add_zero]
    _ = p.admitted := by rw [hcnt, htake, ← hcnt]; rfl

theorem Light.poolRank_le (hl : Light p) (h : p.exec e = some p') {v} (hv : v ∈ p.pool) :
    p'.poolRank v ≤ p.poolRank v := by
  obtain ⟨w, hw⟩ := mem_iff_getElem?.1 hv
  unfold poolRank
  split
  · exact Nat.le_refl _
  · exact Nat.le_refl _
  · exact Nat.le_refl _
  · next calls c =>
    have hx := getElem?_eq_getElem (hl.waits hw)
    obtain ⟨x', hx', hstep⟩ := exec_request h hx
    rw [hx', hx]
    exact Nat.add_le_add_left hstep.rank_le _

theorem Light.sum_poolRank_le (hl : Light p) (h : p.exec e = some p') :
    (p.pool.map p'.poolRank).sum ≤ (p.pool.map p.poolRank).sum :=
  sum_le_sum fun _ hv => hl.poolRank_le h hv

theorem sendStep_rank {a} (hx : p.requests[c]? = some x) (h : p.sendStep c x a = some p')
    (hx' : p'.requests[c]? = some x') : x'.phase.rank < x.phase.rank := by
  have hlt := lt_of_getElem? hx
  cases a with
  | test =>
    simp only [sendStep] at h
    split at h <;> cases h
    next hp =>
    simp only [setRequest, List.getElem?_set_self hlt, some.injEq] at hx'
    cases hs : p.isShutdown <;> simp [← hx', hp, hs, SendPhase.rank]
  | refuse | register | fail =>
    simp only [sendStep] at h
    split at h <;> cases h
    next hp =>
    simp only [setRequest, List.getElem?_set_self hlt, some.injEq] at hx'
    simp [← hx', hp, SendPhase.rank]
  | transmit ok =>
    simp only [sendStep] at h
    split at h <;> cases h
    next hp =>
    simp only [setRequest, List.getElem?_set_self hlt, some.injEq] at hx'
    cases ok <;> simp [← hx', hp, SendPhase.rank]

theorem taskRank_cons (calls : Nat) (tasks : List Nat) : taskRank (calls :: tasks) = 7 * calls + 2 + taskRank tasks := by
  simp [taskRank]

theorem taskRank_append (ts us : List Nat) : taskRank (ts ++ us) = taskRank ts + taskRank us := by
  simp [taskRank]

theorem workerStep_rank {a} (hs : p.isShutdown = true) (h : p.workerStep a = some p') :
    p'.worker.rank + taskRank p'.tasks + 1 ≤ p.worker.rank + taskRank p.tasks := by
  unfold workerStep at h
  split at h
  · next hw =>
    cases h
    simp [hw, hs, WorkerPhase.rank]
  · next hw =>
    split at h <;> cases h <;> simp [hw, hs, WorkerPhase.rank]
  · next hw =>
    cases h
    simp [hw, WorkerPhase.rank]
  · next hw =>
    rw [if_pos hs] at h
    cases h
    simp [hw, WorkerPhase.rank]
  · next hw =>
    split at h <;> cases h <;> simp [hw, WorkerPhase.rank]
  · next hw =>
    cases h
    simp [hw, WorkerPhase.rank]
  · next hw =>
    cases h
    simp only [hw, WorkerPhase.rank]
    split
    · omega
    · rw [taskRank_append]
      omega
  · next hw =>
    cases h
    simp [hw, WorkerPhase.rank]
  · cases h

theorem cleanupRank_congr (hc : p'.cleanup = p.cleanup) (ha : p'.admitted = p.admitted) : p'.cleanupRank = p.cleanupRank := by
  unfold cleanupRank
  rw [hc, ha]

theorem Light.cleanupStep_rank (hl : Light p) {a} (hs : p.isShutdown = true)
    (h : p.cleanupStep a = some p') : p'.tasks = p.tasks ∧ p'.cleanupRank + 1 ≤ p.cleanupRank := by
  unfold cleanupStep at h
  split at h
  · next hc =>
    cases h
    simp [cleanupRank, hc, hs]
  · next stale hc =>
    cases h
    refine ⟨rfl, ?_⟩
    have := hl.length_stale_le stale
    simp only [cleanupRank, hc]
    omega
  · next hc =>
    cases h
    refine ⟨rfl, ?_⟩
    simp only [cleanupRank, hc, length_cons]
    omega
  · next hc =>
    cases h
    simp [cleanupRank, hc]
  · cases h

theorem shutdownStep_rank {a} (hs : p.isShutdown = true) (h : p.shutdownStep a = some p') :
    p'.closing.rank + p'.worker.rank + taskRank p'.tasks + 1 ≤ p.closing.rank + p.worker.rank + taskRank p.tasks := by
  unfold shutdownStep at h
  split at h
  · next hc => simp [isShutdown, hc] at hs
  · next hc =>
    split at h
    · next hw =>
      cases h
      simp only [hc, hw, ShutdownPhase.rank, WorkerPhase.rank]
      omega
    · cases h
      simp only [hc, ShutdownPhase.rank]
      omega
  · next hc =>
    split at h <;> cases h
    simp only [hc, ShutdownPhase.rank]
    omega
  · next hc =>
    split at h <;> cases h
    simp only [hc, ShutdownPhase.rank]
    omega
  · next hc =>
    cases h
    simp only [hc, ShutdownPhase.rank, taskRank, map_nil, sum_nil]
    omega
  · next hc =>
    split at h <;> cases h
    simp only [hc, ShutdownPhase.rank]
    omega
  · next hc =>
    cases h
    simp only [hc, ShutdownPhase.rank, failAll]
    omega
  · cases h

theorem Light.sum_poolRank_set (hl : Light p) (h : p.exec e = some p') {w a b}
    (hw : p.pool[w]? = some a) (hp : p'.pool = p.pool.set w b) :
    (p'.pool.map p'.poolRank).sum + p'.poolRank a ≤ (p.pool.map p.poolRank).sum + p'.poolRank b := by
  have hset := sum_map_set (f := p'.poolRank) (b := b) hw
  have hle := hl.sum_poolRank_le h
  rw [hp]
  omega

theorem Light.poolStep_rank (hl : Light p) {w a} (h : p.poolStep w a = some p') :
    taskRank p'.tasks + (p'.pool.map p'.poolRank).sum + 1 ≤ taskRank p.tasks + (p.pool.map p.poolRank).sum := by
  have he : p.exec (.pool w a) = some p' := h
  cases poolStep_move h with
  | @take calls rest hw ht hp =>
    have hsum : _ + 1 ≤ _ + (7 * calls + 2) := hl.sum_poolRank_set he hw (by rw [hp])
    have htas : p'.tasks = rest := by rw [hp]
    rw [ht, htas, taskRank_cons]
    omega
  | @call calls hw hp =>
    have hsum : _ + (7 * (calls + 1) + 2) ≤ _ + _ := hl.sum_poolRank_set he hw (by rw [hp])
    have hnew : p'.requests[p.requests.length]? = some ⟨p.nextId, .entered, false, none, 0, true⟩ := by simp [hp, enter]
    have hrank : p'.poolRank (.running calls (some p.requests.length)) = 7 * calls + 3 + 4 := by
      simp only [poolRank, hnew]
      rfl
    have htas : p'.tasks = p.tasks := by rw [hp]; rfl
    rw [htas]
    omega
  | @send calls c a x hw hx hs =>
    obtain ⟨-, -, -, -, -, htas, hpool, -⟩ := sendStep_threads hs
    obtain ⟨x', hx', -⟩ := exec_request he hx
    have hlt : (p.pool.map p'.poolRank).sum < (p.pool.map p.poolRank).sum := by
      refine sum_lt_sum _ _ (fun v hv => hl.poolRank_le he hv) ⟨_, mem_of_getElem? hw, ?_⟩
      have hrank := sendStep_rank hx hs hx'
      simp only [poolRank, hx, hx', elim_some]
      omega
    rw [htas, hpool]
    omega
  | @get calls c x hw hx hphase hv hp =>
    have hsum : _ + (7 * calls + 3 + _) ≤ _ + (7 * calls + 2) := hl.sum_poolRank_set he hw (by rw [hp])
    have htas : p'.tasks = p.tasks := by rw [hp]
    rw [htas]
    omega
  | @done calls hw hp =>
    have hsum : _ + (7 * calls + 2) ≤ _ + 1 := hl.sum_poolRank_set he hw (by rw [hp])
    have htas : p'.tasks = p.tasks := by rw [hp]
    rw [htas]
    omega
  | exit hw hstop ht hp =>
    have hsum : _ + 1 ≤ _ + p'.poolRank .ended := hl.sum_poolRank_set he hw (by rw [hp])
    have hrank : p'.poolRank .ended = 0 := rfl
    have htas : p'.tasks = p.tasks := by rw [hp]
    rw [htas]
    omega

theorem Light.exec_rank (hl : Light p) (hs : p.isShutdown = true) (h : p.exec e = some p') :
    p'.rank + (if e.internal then 1 else 0) ≤ p.rank := by
  have ha := admitted_eq hs h
  have hle := hl.sum_poolRank_le h
  have hfrm := exec_frame h
  have hworker : (∀ a, e ≠ .worker a) → (∀ a, e ≠ .shutdown a) → p'.worker = p.worker := by
    intro hne hne'
    rcases hfrm.worker with hw | ⟨a, rfl⟩ | ⟨-, hidle⟩ | ⟨-, rfl⟩
    · exact hw
    · exact absurd rfl (hne a)
    · simp [isShutdown, hidle] at hs
    · exact absurd rfl (hne' .notify)
  cases e with
  | sendHost | caller | handleMessage =>
    simp only [rank, CdpEvent.internal, Bool.false_eq_true, if_false, hfrm.closing.resolve_right (by simp),
      hworker (by simp) (by simp), cleanupRank_congr (hfrm.cleanup.resolve_right (by simp)) ha,
      hfrm.tasks.resolve_right (by simp [CdpEvent.internal]), hfrm.pool.resolve_right (by simp)]
    omega
  | worker a =>
    have hrank := workerStep_rank hs h
    simp only [rank, CdpEvent.internal, if_true, hfrm.closing.resolve_right (by simp),
      cleanupRank_congr (hfrm.cleanup.resolve_right (by simp)) ha, hfrm.pool.resolve_right (by simp)]
    omega
  | cleanup a =>
    obtain ⟨ht, hrank⟩ := hl.cleanupStep_rank hs h
    simp only [rank, CdpEvent.internal, if_true, hfrm.closing.resolve_right (by simp), hworker (by simp) (by simp), ht,
      hfrm.pool.resolve_right (by simp)]
    omega
  | shutdown a =>
    have hrank := shutdownStep_rank hs h
    simp only [rank, CdpEvent.internal, if_true, cleanupRank_congr (hfrm.cleanup.resolve_right (by simp)) ha,
      hfrm.pool.resolve_right (by simp)]
    omega
  | pool w a =>
    have hrank := hl.poolStep_rank h
    simp only [rank, CdpEvent.internal, if_true, hfrm.closing.resolve_right (by simp), hworker (by simp) (by simp),
      cleanupRank_congr (hfrm.cleanup.resolve_right (by simp)) ha]
    omega

end CdpClient

end CloudeLoader.Cdp
