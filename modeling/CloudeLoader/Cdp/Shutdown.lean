import CloudeLoader.Cdp.Rank

/-!
# The end of `shutdown()`

`shutdown()` joins the worker, the cleanup thread and the threads of the pool, and only then fails the pending requests.
A callback that waits for one of these requests keeps its thread of the pool from ending.
-/

namespace CloudeLoader.Cdp

open JsonDoc Transition List

variable {q : CdpClient}

namespace CdpClient

/-- The worker has the response to the number `i` and looks for its entry next. -/
def Matching (p : CdpClient) (i : Int) : Prop := ∃ raw result, p.worker = .parsed raw result ∧ int32 raw = i

/-- The request passed the test of `m_shutdown`, and no thread but the one in `shutdown()` is sure to complete it. -/
def Doomed (p : CdpClient) (c : Nat) (x : CdpRequest) : Prop :=
  (x.phase = .passed ∨ x.phase = .registered ∨ x.phase = .returned) ∧ x.completed = false ∧
    ¬p.Held c ∧ ¬p.InCleanup c ∧ ¬(p.Tabled c x ∧ p.Matching x.id)

/-- The worker is not between the test of its predicate and its sleep, and no callback waits for a doomed request. -/
def Calm (p : CdpClient) : Prop :=
  p.worker ≠ .tested ∧ ∀ w calls c : Nat, ∀ x, p.pool[w]? = some (.running calls (some c)) → p.requests[c]? = some x →
    ¬p.Doomed c x

variable {p p' s : CdpClient} {e : CdpEvent} {es : List CdpEvent} {c w : Nat} {x x' : CdpRequest}

theorem exec_isShutdown (h : p.exec e = some p') (hs : p.isShutdown = true) : p'.isShutdown = true := by
  rcases (exec_frame h).closing with hc | ⟨a, rfl⟩
  · unfold isShutdown at hs ⊢
    rwa [hc]
  · simp only [exec, shutdownStep] at h
    split at h <;> (try split at h) <;> cases h <;> rfl

structure Closing (p : CdpClient) : Prop where
  light : Light p
  shut : p.isShutdown = true

theorem Closing.step (h : Closing p) (he : p.exec e = some p') : Closing p' :=
  ⟨h.light.step he, exec_isShutdown he h.shut⟩

theorem Closing.exists_halted (h : Closing p) : ∃ es q, run exec p es = some q ∧ Halted exec CdpEvent.internal q := by
  refine exists_run_halted rank (P := Closing) (fun h he => h.step he) ?_ h
  intro p e p' h hown he
  have := h.light.exec_rank h.shut he
  rw [if_pos hown] at this
  omega

/-! ### Where `shutdown()` never returns -/

def Lost (p : CdpClient) : Prop := p.closing = .notified ∧ p.worker = .asleep

theorem Lost.step (h : Lost p) (he : p.exec e = some p') : Lost p' := by
  obtain ⟨hc, hw⟩ := h
  have hfrm := exec_frame he
  have hworker : (∀ a, e ≠ .worker a) → (∀ a, e ≠ .shutdown a) → p'.worker = .asleep := by
    intro hne hne'
    rcases hfrm.worker with h | ⟨a, rfl⟩ | ⟨-, hidle⟩ | ⟨-, rfl⟩
    · rw [h, hw]
    · exact absurd rfl (hne a)
    · cases hc.symm.trans hidle
    · exact absurd rfl (hne' .notify)
  cases e with
  | sendHost | caller | handleMessage | cleanup | pool =>
    exact ⟨(hfrm.closing.resolve_right (by simp)).trans hc, hworker (by simp) (by simp)⟩
  | worker a => cases a <;> simp [exec, workerStep, hw] at he
  | shutdown a => cases a <;> simp [exec, shutdownStep, hc, hw] at he

/-- A callback waits for a request in a phase, and no other thread is about to complete it. -/
structure Stuck (phase : SendPhase) (p : CdpClient) (w c : Nat) : Prop where
  early : p.closing ≠ .poolJoined ∧ p.closing ≠ .returned
  waiting : ∃ calls, p.pool[w]? = some (.running calls (some c))
  request : ∃ x, p.requests[c]? = some x ∧ x.phase = phase ∧ x.completed = false
  held : ¬p.Held c
  inCleanup : ¬p.InCleanup c
  worker : ∀ raw result, p.worker ≠ .parsed raw result
  cleanup : p.cleanup ≠ .checked

/-- A callback waits for a request that only `shutdown()` would complete, and `shutdown()` waits for the callback. -/
abbrev Blocked := Stuck .returned

theorem workerStep_parsed {a} (hs : p.isShutdown = true) (h : p.workerStep a = some p') (raw : Int)
    (result : Except String Json) : p'.worker ≠ .parsed raw result := by
  simp only [workerStep, hs, if_true] at h
  split at h <;> (try split at h) <;> cases h <;> simp

theorem cleanupStep_checked {a} (hs : p.isShutdown = true) (h : p.cleanupStep a = some p') :
    p'.cleanup ≠ .checked := by
  simp only [cleanupStep, hs, if_true] at h
  split at h <;> cases h <;> simp

theorem shutdownStep_early {a v} (hv : p.pool[w]? = some v) (hne : v ≠ .ended)
    (herl : p.closing ≠ .poolJoined ∧ p.closing ≠ .returned) (h : p.shutdownStep a = some p') :
    p'.closing ≠ .poolJoined ∧ p'.closing ≠ .returned := by
  unfold shutdownStep at h
  split at h
  · cases h
    simp
  · split at h <;> cases h <;> simp
  · split at h <;> cases h
    simp
  · split at h <;> cases h
    simp
  · cases h
    simp
  · split at h
    · next hall =>
      have := all_eq_true.1 hall v (mem_of_getElem? hv)
      cases v with
      | ended => exact absurd rfl hne
      | idle | running => cases this
    · cases h
  · next hc => exact absurd hc herl.1
  · cases h

theorem Blocked.not_held (hb : Blocked p w c) (he : p.exec e = some p') : ¬p'.Held c ∧ ¬p'.InCleanup c := by
  have hsame : p'.worker = p.worker → p'.cleanup = p.cleanup → ¬p'.Held c ∧ ¬p'.InCleanup c := by
    intro hw hc
    unfold Held InCleanup
    rw [hw, hc]
    exact ⟨hb.held, hb.inCleanup⟩
  cases exec_effect he with
  | quiet _ _ _ _ hheld hclean => exact ⟨fun h => hb.held ((hheld c).1 h), fun h => hb.inCleanup ((hclean c).1 h)⟩
  | enter _ _ _ _ _ hw hc => exact hsame hw hc
  | send _ _ hs => exact hsame (sendStep_threads hs).2.1 (sendStep_threads hs).2.2.2.1
  | take hw => exact absurd hw (hb.worker _ _)
  | stale hc => exact absurd hc hb.cleanup
  | settle hw hp =>
    rw [hp]
    exact ⟨nofun, hb.inCleanup⟩
  | expire hc hp =>
    rw [hp]
    refine ⟨hb.held, ?_⟩
    rintro ⟨cs, hcs, hmem⟩
    cases hcs
    exact hb.inCleanup ⟨_, hc, mem_cons_of_mem _ hmem⟩
  | sweep hc => exact absurd hc hb.early.1

theorem Blocked.step (h : Closing p) (hb : Blocked p w c) (he : p.exec e = some p') : Blocked p' w c := by
  obtain ⟨calls, hcal⟩ := hb.waiting
  obtain ⟨x, hx, hphase, hcomp⟩ := hb.request
  have hfrm := exec_frame he
  obtain ⟨hheld, hclean⟩ := hb.not_held he
  refine ⟨?_, ?_, ?_, hheld, hclean, ?_, ?_⟩
  · rcases hfrm.closing with hc | ⟨a, rfl⟩
    · rw [hc]
      exact hb.early
    · exact shutdownStep_early hcal (by simp) hb.early he
  · rcases hfrm.pool with hp | ⟨v, a, rfl⟩
    · exact ⟨calls, by rw [hp, hcal]⟩
    · have hset : ∀ {b : PoolWorker}, p'.pool = p.pool.set v b → v ≠ w →
          ∃ calls, p'.pool[w]? = some (.running calls (some c)) :=
        fun hp hne => ⟨calls, by rw [hp, getElem?_set_ne hne, hcal]⟩
      have hne : ∀ {b : PoolWorker}, p.pool[v]? = some b → b ≠ .running calls (some c) → v ≠ w := by
        rintro b hv hbne rfl
        exact hbne (Option.some.inj (hv.symm.trans hcal))
      cases poolStep_move he with
      | take hw _ hp => exact hset (by rw [hp]) (hne hw (by simp))
      | call hw hp => exact hset (by rw [hp]) (hne hw (by simp))
      | send _ _ hs => exact ⟨calls, by rw [(sendStep_threads hs).2.2.2.2.2.2.1, hcal]⟩
      | @get calls' d y hw hy _ hv hp =>
        refine hset (by rw [hp]) (hne hw ?_)
        intro heq
        cases heq
        cases hx.symm.trans hy
        rw [h.light.promise_eq hx, hcomp] at hv
        cases hv
      | done hw hp => exact hset (by rw [hp]) (hne hw (by simp))
      | exit hw _ _ hp => exact hset (by rw [hp]) (hne hw (by simp))
  · obtain ⟨x', hx', hstep⟩ := exec_request he hx
    cases hstep with
    | same => exact ⟨x, hx', hphase, hcomp⟩
    | complete hwhy =>
      rcases hwhy with hheld | hclean | hjoin
      · exact absurd hheld hb.held
      · exact absurd hclean hb.inCleanup
      · exact absurd hjoin hb.early.1
    | test hp | refuse hp | register hp | transmit hp | fail hp => cases hphase.symm.trans hp
  · intro raw result
    rcases hfrm.worker with hw | ⟨a, rfl⟩ | ⟨-, hidle⟩ | ⟨hw, rfl⟩
    · rw [hw]
      exact hb.worker raw result
    · exact workerStep_parsed h.shut he raw result
    · have := h.shut
      simp [isShutdown, hidle] at this
    · cases hcl : p.closing <;> simp [exec, shutdownStep, hw, hcl] at he
      simp [← he]
  · rcases hfrm.cleanup with hc | ⟨a, rfl⟩
    · rw [hc]
      exact hb.cleanup
    · exact cleanupStep_checked h.shut he

theorem Blocked.run_closing (h : Closing p) (hb : Blocked p w c) (hrun : run exec p es = some q) :
    q.closing ≠ .returned := by
  have := run_induction (P := fun _ q => Closing q ∧ Blocked q w c) ⟨h, hb⟩
    (fun _ ih he => ⟨ih.1.step he, ih.2.step ih.1 he⟩) hrun
  exact this.2.early.2

theorem Lost.run_closing (h : Lost p) (hrun : run exec p es = some q) : q.closing ≠ .returned := by
  have := run_induction (P := fun _ q => Lost q) h (fun _ ih he => ih.step he) hrun
  rw [this.1]
  simp

structure Endangered (p : CdpClient) (w c : Nat) : Prop where
  early : p.closing ≠ .poolJoined ∧ p.closing ≠ .returned
  waiting : ∃ calls, p.pool[w]? = some (.running calls (some c))
  request : ∃ x, p.requests[c]? = some x ∧ p.Doomed c x

theorem Endangered.worker_takes (h : Closing p) (hd : Endangered p w c) :
    ∃ q, Reaches exec p q ∧ Endangered q w c ∧ ∀ raw result, q.worker ≠ .parsed raw result := by
  by_cases hpar : ∃ raw result, p.worker = .parsed raw result
  · obtain ⟨raw, result, hworker⟩ := hpar
    obtain ⟨x, hx, hphase, hcomp, hheld, hclean, hmat⟩ := hd.request
    cases hpend : p.pending (int32 raw) with
    | none =>
      have he : p.exec (.worker .take) = some { p with worker := .top } := by simp [exec, workerStep, hworker, hpend]
      refine ⟨_, .of_step he, ⟨hd.early, hd.waiting, x, hx, hphase, hcomp, by simp [Held], hclean, ?_⟩, by simp⟩
      rintro ⟨-, raw', result', hw, -⟩
      cases hw
    | some d =>
      have he : p.exec (.worker .take) = some { p with
          worker := .holding d raw result
          pending := Function.update p.pending (int32 raw) none } := by simp [exec, workerStep, hworker, hpend]
      refine ⟨_, .of_step he, ⟨hd.early, hd.waiting, x, hx, hphase, hcomp, ?_, hclean, ?_⟩, by simp⟩
      · rintro ⟨raw', result', hw⟩
        cases hw
        obtain ⟨y, hy, hid, -⟩ := h.light.table hpend
        cases hx.symm.trans hy
        exact hmat ⟨by rw [Tabled, hid, hpend], raw, result, hworker, hid.symm⟩
      · rintro ⟨-, raw', result', hw, -⟩
        cases hw
  · exact ⟨p, .refl, hd, fun raw result hw => hpar ⟨raw, result, hw⟩⟩

theorem Endangered.cleanup_takes (hd : Endangered p w c) (hworker : ∀ raw result, p.worker ≠ .parsed raw result) :
    ∃ q, Reaches exec p q ∧ Endangered q w c ∧ (∀ raw result, q.worker ≠ .parsed raw result) ∧ q.cleanup ≠ .checked := by
  by_cases hc : p.cleanup = .checked
  · obtain ⟨x, hx, hphase, hcomp, hheld, hclean, -⟩ := hd.request
    have he : p.exec (.cleanup (.take [])) = some { p with cleanup := .holding [] } := by
      have hpend : (fun i => (p.pending i).filter (· ∉ ([] : List Nat))) = p.pending := by
        funext i
        cases p.pending i <;> rfl
      simp only [exec, cleanupStep, hc, hpend]
      simp
    refine ⟨_, .of_step he, ⟨hd.early, hd.waiting, x, hx, hphase, hcomp, hheld, ?_, ?_⟩, hworker, by simp⟩
    · rintro ⟨cs, hcs, hmem⟩
      cases hcs
      cases hmem
    · rintro ⟨-, raw, result, hw, -⟩
      exact hworker raw result hw
  · exact ⟨p, .refl, hd, hworker, hc⟩

theorem exec_poolSend {calls a} (hw : p.pool[w]? = some (.running calls (some c)))
    (hx : p.requests[c]? = some x) : p.exec (.pool w (.send c a)) = p.sendStep c x a := by
  simp [exec, poolStep, hw, hx]

theorem Stuck.transmits (h : Stuck .registered p w c) : ∃ q, Reaches exec p q ∧ Blocked q w c := by
  obtain ⟨calls, hw⟩ := h.waiting
  obtain ⟨x, hx, hphase, hcomp⟩ := h.request
  have he : p.exec (.pool w (.send c (.transmit true))) = some (p.setRequest c { x with phase := .returned }) := by
    rw [exec_poolSend hw hx, sendStep, if_pos hphase]
    rfl
  exact ⟨_, .of_step he, h.early, h.waiting, ⟨_, List.getElem?_set_self (lt_of_getElem? hx), rfl, hcomp⟩, h.held,
    h.inCleanup, h.worker, h.cleanup⟩

theorem Stuck.registers (h : Stuck .passed p w c) : ∃ q, Reaches exec p q ∧ Stuck .registered q w c := by
  obtain ⟨calls, hw⟩ := h.waiting
  obtain ⟨x, hx, hphase, hcomp⟩ := h.request
  have he : p.exec (.pool w (.send c .register)) = some { p.setRequest c { x with phase := .registered } with
      pending := Function.update p.pending x.id (some c) } := by rw [exec_poolSend hw hx, sendStep, if_pos hphase]
  exact ⟨_, .of_step he, h.early, h.waiting, ⟨_, List.getElem?_set_self (lt_of_getElem? hx), rfl, hcomp⟩, h.held,
    h.inCleanup, h.worker, h.cleanup⟩

theorem Endangered.exists_blocked (h : Closing p) (hd : Endangered p w c) : ∃ q, Reaches exec p q ∧ Blocked q w c := by
  obtain ⟨p₁, hrch₁, hd₁, hworker₁⟩ := hd.worker_takes h
  obtain ⟨p₂, hrch₂, hd₂, hworker, hcleanup⟩ := hd₁.cleanup_takes hworker₁
  obtain ⟨x, hx, hphase, hcomp, hheld, hclean, -⟩ := hd₂.request
  have hrch := hrch₁.trans hrch₂
  have hstuck : Stuck x.phase p₂ w c := ⟨hd₂.early, hd₂.waiting, ⟨x, hx, rfl, hcomp⟩, hheld, hclean, hworker, hcleanup⟩
  rcases hphase with hphase | hphase | hphase <;> rw [hphase] at hstuck
  · obtain ⟨p₃, hrch₃, hreg⟩ := hstuck.registers
    obtain ⟨q, hrch₄, hb⟩ := hreg.transmits
    exact ⟨q, (hrch.trans hrch₃).trans hrch₄, hb⟩
  · obtain ⟨q, hrch₃, hb⟩ := hstuck.transmits
    exact ⟨q, hrch.trans hrch₃, hb⟩
  · exact ⟨p₂, hrch, hstuck⟩

theorem Closing.reaches (h : Closing p) (hq : Reaches exec p q) : Closing q := by
  obtain ⟨es, hrun⟩ := hq
  exact run_induction (P := fun _ q => Closing q) h (fun _ ih he => ih.step he) hrun

theorem calm_of_returns (h : Closing p) (hc : p.closing = .flagged)
    (hret : ∀ fs q, run exec p fs = some q → Halted exec CdpEvent.internal q → q.closing = .returned) : p.Calm := by
  have hnev : ∀ {q : CdpClient}, Reaches exec p q →
      ¬∀ {fs : List CdpEvent} {r : CdpClient}, run exec q fs = some r → r.closing ≠ .returned := by
    rintro q ⟨es, hes⟩ hq
    obtain ⟨fs, r, hfs, hhalt⟩ := (h.reaches ⟨es, hes⟩).exists_halted
    exact hq hfs (hret (es ++ fs) r (by rw [run_append, hes]; exact hfs) hhalt)
  constructor
  · intro hw
    -- the notification comes before the sleep
    have hnot : p.exec (.shutdown .notify) = some { p with closing := .notified } := by
      simp [exec, shutdownStep, hc, hw]
    have hslp : CdpClient.exec { p with closing := .notified } (.worker .sleep) =
        some { p with closing := .notified, worker := .asleep } := by simp [exec, workerStep, hw]
    have hlost : Lost { p with closing := .notified, worker := .asleep } := ⟨rfl, rfl⟩
    exact hnev ((Reaches.of_step hnot).trans (.of_step hslp)) fun hrun => hlost.run_closing hrun
  · intro w calls c x hw hx hd
    obtain ⟨q, hrch, hb⟩ := Endangered.exists_blocked h ⟨by rw [hc]; exact ⟨by simp, by simp⟩, ⟨calls, hw⟩, ⟨x, hx, hd⟩⟩
    exact hnev hrch fun hrun => hb.run_closing (h.reaches hrch) hrun

/-! ### Where it returns -/

/-- No other request that is still in `send_host` has the number `i`. -/
def Sole (p : CdpClient) (c : Nat) (i : Int) : Prop :=
  ∀ (d : Nat) (y : CdpRequest), p.requests[d]? = some y → y.phase = .passed ∨ y.phase = .registered ∨ y.phase = .failed →
    d ≠ c → y.id ≠ i

/-- A thread other than the one in `shutdown()` is sure to complete the request. -/
inductive Saved (p : CdpClient) (c : Nat) (x : CdpRequest) : Prop
  | completed (h : x.completed = true)
  | held (h : p.Held c)
  | inCleanup (h : p.InCleanup c)
  | sending (h : x.phase = .entered ∨ x.phase = .refused ∨ x.phase = .failed)
  | answered (ht : p.Tabled c x) (hm : p.Matching x.id) (hsole : p.Sole c x.id)

theorem Held.step (h : p.Held c) (hx : p.requests[c]? = some x) (hx' : p'.requests[c]? = some x') (he : p.exec e = some p') :
    p'.Held c ∨ x'.completed = true := by
  have hsame : p'.worker = p.worker → p'.Held c := by
    intro hw
    unfold Held
    rwa [hw]
  obtain ⟨raw, result, hw⟩ := h
  cases exec_effect he with
  | quiet _ _ _ _ hheld => exact .inl ((hheld c).2 ⟨raw, result, hw⟩)
  | enter _ _ _ _ _ hw => exact .inl (hsame hw)
  | send _ _ hs => exact .inl (hsame (sendStep_threads hs).2.1)
  | take hw' => cases hw.symm.trans hw'
  | settle hw' hp =>
    cases hw.symm.trans hw'
    rw [hp, getElem?_modify_eq, hx] at hx'
    cases hx'
    exact .inr (complete_completed x _)
  | stale _ hp | expire _ hp => exact .inl (hsame (by rw [hp]))
  | sweep _ hp => exact .inl (hsame (by rw [hp]; rfl))

theorem InCleanup.step (h : p.InCleanup c) (hx : p.requests[c]? = some x) (hx' : p'.requests[c]? = some x')
    (he : p.exec e = some p') : p'.InCleanup c ∨ x'.completed = true := by
  have hsame : p'.cleanup = p.cleanup → p'.InCleanup c := by
    intro hw
    unfold InCleanup
    rwa [hw]
  obtain ⟨cs, hcs, hmem⟩ := h
  cases exec_effect he with
  | quiet _ _ _ _ _ hclean => exact .inl ((hclean c).2 ⟨cs, hcs, hmem⟩)
  | enter _ _ _ _ _ _ hc => exact .inl (hsame hc)
  | send _ _ hs => exact .inl (hsame (sendStep_threads hs).2.2.2.1)
  | stale hc => cases hcs.symm.trans hc
  | expire hc hp =>
    cases hcs.symm.trans hc
    rcases mem_cons.1 hmem with rfl | hmem
    · rw [hp, getElem?_modify_eq, hx] at hx'
      cases hx'
      exact .inr (complete_completed x _)
    · exact .inl ⟨_, by rw [hp], hmem⟩
  | take _ _ hp | settle _ hp => exact .inl (hsame (by rw [hp]))
  | sweep _ hp => exact .inl (hsame (by rw [hp]; rfl))

theorem Sole.step {i} (hsole : p.Sole c i) (hs : p.isShutdown = true) (he : p.exec e = some p') : p'.Sole c i := by
  intro d y' hy' hphase hdc
  rcases exec_request_back he hy' with ⟨y, hy, hstep⟩ | ⟨-, -, pooled, rfl⟩
  · rw [hstep.id_eq]
    refine hsole d y hy ?_ hdc
    cases hstep with
    | same => exact hphase
    | complete => rwa [complete_phase] at hphase
    | test h => simp [hs] at hphase
    | refuse h | fail h => simp at hphase
    | register h => exact .inl h
    | transmit h => exact .inr (.inl h)
  · simp at hphase

theorem saved_of_answered (hs : p.isShutdown = true) (ht : p.Tabled c x) (hm : p.Matching x.id) (hsole : p.Sole c x.id)
    (hx : p.requests[c]? = some x) (hx' : p'.requests[c]? = some x') (hid : x'.id = x.id) (he : p.exec e = some p') :
    p'.Saved c x' := by
  obtain ⟨raw, result, hw, hraw⟩ := hm
  have hfrm := exec_frame he
  have hkeep : p'.worker = p.worker → p'.pending x.id = some c → p'.Saved c x' := by
    intro hw' hp
    exact .answered (by rwa [Tabled, hid]) ⟨raw, result, by rw [hw', hw], by rw [hraw, hid]⟩ (hid ▸ hsole.step hs he)
  have hworker : (∀ a, e ≠ .worker a) → p'.worker = p.worker := by
    intro hne
    rcases hfrm.worker with hw' | ⟨a, rfl⟩ | ⟨hw', -⟩ | ⟨hw', -⟩
    · exact hw'
    · exact absurd rfl (hne a)
    · cases hw.symm.trans hw'
    · cases hw.symm.trans hw'
  by_cases hewo : ∃ a, e = .worker a
  · obtain ⟨a, rfl⟩ := hewo
    cases a <;> simp [exec, workerStep, hw] at he
    have hpend : p.pending (int32 raw) = some c := by rw [hraw]; exact ht
    rw [hpend] at he
    cases he
    exact .held ⟨raw, result, rfl⟩
  · have hw' := hworker fun a ha => hewo ⟨a, ha⟩
    cases exec_effect he with
    | quiet _ _ _ hpend => exact hkeep hw' (by rw [hpend]; exact ht)
    | enter _ _ _ _ hpend => exact hkeep hw' (by rw [hpend]; exact ht)
    | take | settle => exact absurd ⟨_, rfl⟩ hewo
    | expire _ hp => exact hkeep hw' (by rw [hp]; exact ht)
    | sweep _ hp =>
      rw [hp] at hx'
      obtain ⟨y, hy, rfl⟩ := failAll_getElem? hx'
      cases hx.symm.trans hy
      rw [if_pos (show p.pending x.id = some c from ht)]
      exact .completed (complete_completed x _)
    | @stale stale hc hp =>
      by_cases hmem : c ∈ stale
      · refine .inCleanup ⟨_, by rw [hp], mem_filter.2 ⟨?_, ?_⟩⟩
        · exact List.mem_range.2 (lt_of_getElem? hx)
        · simp [(tabled_iff hx).2 ht, hmem]
      · refine hkeep hw' ?_
        rw [hp]
        exact Option.filter_eq_some_iff.2 ⟨ht, by simpa using hmem⟩
    | @send _ d y a _ hy hsend =>
      cases a <;> simp only [sendStep] at hsend <;> split at hsend <;> cases hsend
      · exact hkeep hw' ht
      · exact hkeep hw' ht
      · next hp =>
        refine hkeep hw' ?_
        by_cases hdc : d = c
        · subst hdc
          cases hx.symm.trans hy
          exact Function.update_self ..
        · exact (update_of_id_ne (hsole d y hy (.inl hp) hdc).symm).trans ht
      · exact hkeep hw' ht
      · next hp =>
        by_cases hdc : d = c
        · subst hdc
          cases hx.symm.trans hy
          simp only [setRequest, getElem?_set_self (lt_of_getElem? hx), Option.some.injEq] at hx'
          rw [← hx']
          exact .completed (complete_completed x _)
        · exact hkeep hw' ((update_of_id_ne (hsole d y hy (.inr (.inr hp)) hdc).symm).trans ht)

theorem Saved.step (h : p.Saved c x) (hs : p.isShutdown = true) (hx : p.requests[c]? = some x)
    (hx' : p'.requests[c]? = some x') (hstep : ReqStep p c x x') (he : p.exec e = some p') : p'.Saved c x' := by
  cases h with
  | completed h => exact .completed (hstep.completed h)
  | held h => exact (h.step hx hx' he).elim .held .completed
  | inCleanup h => exact (h.step hx hx' he).elim .inCleanup .completed
  | answered ht hm hsole => exact saved_of_answered hs ht hm hsole hx hx' hstep.id_eq he
  | sending h =>
    cases hstep with
    | same => exact .sending h
    | complete | refuse | fail => exact .completed (complete_completed x _)
    | test => exact .sending (.inr (.inl (by simp [hs])))
    | register hp | transmit hp => simp [hp] at h

/-- What a calm state turns into: the worker was or will be reached by the notification, and no callback is stuck. -/
structure Clear (p : CdpClient) : Prop where
  closing : Closing p
  awake : p.worker ≠ .tested
  reached : p.closing ≠ .flagged → p.worker ≠ .asleep
  saved : ∀ {w calls c : Nat} {x}, p.pool[w]? = some (.running calls (some c)) → p.requests[c]? = some x → p.Saved c x

theorem workerStep_awake {a} (hs : p.isShutdown = true) (hne : p.worker ≠ .tested)
    (h : p.workerStep a = some p') : p'.worker ≠ .tested ∧ p'.worker ≠ .asleep := by
  simp only [workerStep, hs, if_true] at h
  split at h
  · cases h
    simp
  · split at h <;> cases h <;> simp
  · next hw => exact absurd hw hne
  · cases h
    simp
  · split at h <;> cases h <;> simp
  · cases h
    simp
  · cases h
    simp
  · cases h
    simp
  · cases h

theorem shutdownStep_awake {a} (hs : p.isShutdown = true) (hne : p.worker ≠ .tested)
    (hrch : p.closing ≠ .flagged → p.worker ≠ .asleep) (h : p.shutdownStep a = some p') :
    p'.worker ≠ .tested ∧ p'.worker ≠ .asleep := by
  unfold shutdownStep at h
  split at h
  · next hc => simp [isShutdown, hc] at hs
  · split at h
    · cases h
      simp
    · next hna =>
      cases h
      exact ⟨hne, hna⟩
  · next hc =>
    split at h <;> cases h
    exact ⟨hne, hrch (by simp [hc])⟩
  · next hc =>
    split at h <;> cases h
    exact ⟨hne, hrch (by simp [hc])⟩
  · next hc =>
    cases h
    exact ⟨hne, hrch (by simp [hc])⟩
  · next hc =>
    split at h <;> cases h
    exact ⟨hne, hrch (by simp [hc])⟩
  · next hc =>
    cases h
    exact ⟨hne, hrch (by simp [hc])⟩
  · cases h

theorem Clear.step (h : Clear p) (he : p.exec e = some p') : Clear p' := by
  have hs := h.closing.shut
  have hfrm := exec_frame he
  have hworker : p'.worker ≠ .tested ∧ (p'.closing ≠ .flagged → p'.worker ≠ .asleep) := by
    by_cases hshut : ∃ a, e = .shutdown a
    · obtain ⟨a, rfl⟩ := hshut
      have := shutdownStep_awake hs h.awake h.reached he
      exact ⟨this.1, fun _ => this.2⟩
    · rw [hfrm.closing.resolve_right hshut]
      rcases hfrm.worker with hw | ⟨a, rfl⟩ | ⟨-, hidle⟩ | ⟨-, rfl⟩
      · rw [hw]
        exact ⟨h.awake, h.reached⟩
      · have := workerStep_awake hs h.awake he
        exact ⟨this.1, fun _ => this.2⟩
      · simp [isShutdown, hidle] at hs
      · exact absurd ⟨_, rfl⟩ hshut
  refine ⟨h.closing.step he, hworker.1, hworker.2, ?_⟩
  intro w calls c x' hw hx'
  rcases exec_waiting he hw with hw | ⟨rfl, hlen⟩
  · have hx := getElem?_eq_getElem (h.closing.light.waits hw)
    obtain ⟨y, hy, hstep⟩ := exec_request he hx
    cases hx'.symm.trans hy
    exact (h.saved hw hx).step hs hx hx' hstep he
  · rcases exec_request_back he hx' with ⟨x, hx, -⟩ | ⟨-, -, pooled, rfl⟩
    · have := lt_of_getElem? hx
      omega
    · exact .sending (.inl rfl)

/-! ### No thread waits for ever -/

theorem not_halted_of_worker (hne : p.worker ≠ .ended) (hawk : p.worker ≠ .tested) (hrch : p.worker ≠ .asleep) :
    ¬Halted exec CdpEvent.internal p := by
  intro hh
  have hnone : ∀ a, p.workerStep a = none := fun a => hh (.worker a) rfl
  cases hw : p.worker with
  | ended => exact hne hw
  | tested => exact hawk hw
  | asleep => exact hrch hw
  | top => simpa [workerStep, hw] using hnone .loop
  | locking =>
    have := hnone .lock
    simp only [workerStep, hw] at this
    split at this <;> cases this
  | handling message callbacks =>
    have := hnone .process
    simp only [workerStep, hw] at this
    split at this <;> (try split at this) <;> (try split at this) <;> cases this
  | parsed raw result =>
    have := hnone .take
    simp only [workerStep, hw] at this
    split at this <;> cases this
  | holding c raw result => simpa [workerStep, hw] using hnone .settle
  | dispatching callbacks => simpa [workerStep, hw] using hnone .dispatch
  | draining => simpa [workerStep, hw] using hnone .drain

theorem not_halted_of_cleanup (hne : p.cleanup ≠ .ended) : ¬Halted exec CdpEvent.internal p := by
  intro hh
  have hnone : ∀ a, p.cleanupStep a = none := fun a => hh (.cleanup a) rfl
  cases hc : p.cleanup with
  | ended => exact hne hc
  | waiting => simpa [cleanupStep, hc] using hnone .check
  | checked => simpa [cleanupStep, hc] using hnone (.take [])
  | holding cs =>
    have := hnone .settle
    cases cs <;> simp [cleanupStep, hc] at this

theorem Clear.not_halted_of_waiting (h : Clear p) {calls}
    (hw : p.pool[w]? = some (.running calls (some c))) : ¬Halted exec CdpEvent.internal p := by
  intro hh
  obtain ⟨x, hx⟩ : ∃ x, p.requests[c]? = some x := ⟨_, getElem?_eq_getElem (h.closing.light.waits hw)⟩
  have hsend : ∀ a, p.sendStep c x a = none := fun a => (exec_poolSend hw hx).symm.trans (hh (.pool w (.send c a)) rfl)
  have hget : x.phase = .returned ∨ x.phase = .declined → x.completed = true → False := by
    intro hphase hcomp
    have hv : x.promise.isSome = true := (h.closing.light.promise_eq hx).trans hcomp
    have := hh (.pool w .get) rfl
    simp only [exec, poolStep, hw, hx] at this
    rw [if_pos ⟨hphase, hv⟩] at this
    cases this
  cases hphase : x.phase with
  | entered => simpa [sendStep, hphase] using hsend .test
  | refused => simpa [sendStep, hphase] using hsend .refuse
  | passed => simpa [sendStep, hphase] using hsend .register
  | registered => simpa [sendStep, hphase] using hsend (.transmit true)
  | failed => simpa [sendStep, hphase] using hsend .fail
  | declined => exact hget (.inr hphase) (h.closing.light.declined hx hphase)
  | returned =>
    cases h.saved hw hx with
    | completed hcomp => exact hget (.inl hphase) hcomp
    | held hheld =>
      obtain ⟨raw, result, hworker⟩ := hheld
      exact not_halted_of_worker (by simp [hworker]) (by simp [hworker]) (by simp [hworker]) hh
    | inCleanup hclean =>
      obtain ⟨cs, hcs, -⟩ := hclean
      exact not_halted_of_cleanup (by simp [hcs]) hh
    | sending hp => simp [hphase] at hp
    | answered _ hm =>
      obtain ⟨raw, result, hworker, -⟩ := hm
      exact not_halted_of_worker (by simp [hworker]) (by simp [hworker]) (by simp [hworker]) hh

theorem Clear.pool_ended (h : Clear p) (hstop : p.stopped = true) (hh : Halted exec CdpEvent.internal p) {v}
    (hv : p.pool[w]? = some v) : v = .ended := by
  cases v with
  | ended => rfl
  | idle =>
    have := hh (.pool w .exit) rfl
    simp [exec, poolStep, hv, hstop, h.closing.light.tasks hstop] at this
  | running calls wait =>
    cases wait with
    | none =>
      have := hh (.pool w .done) rfl
      simp [exec, poolStep, hv] at this
    | some c => exact absurd hh (h.not_halted_of_waiting hv)

theorem Clear.returned (h : Clear p) (hh : Halted exec CdpEvent.internal p) : p.closing = .returned := by
  have hnone : ∀ a, p.shutdownStep a = none := fun a => hh (.shutdown a) rfl
  cases hc : p.closing with
  | returned => rfl
  | idle => simpa [isShutdown, hc] using h.closing.shut
  | flagged =>
    have := hnone .notify
    simp only [shutdownStep, hc] at this
    split at this <;> cases this
  | notified =>
    by_cases hw : p.worker = .ended
    · simpa [shutdownStep, hc, hw] using hnone .joinWorker
    · exact absurd hh (not_halted_of_worker hw h.awake (h.reached (by simp [hc])))
  | workerJoined =>
    by_cases hcl : p.cleanup = .ended
    · simpa [shutdownStep, hc, hcl] using hnone .joinCleanup
    · exact absurd hh (not_halted_of_cleanup hcl)
  | cleanupJoined => simpa [shutdownStep, hc] using hnone .stopPool
  | poolStopped =>
    have := hnone .joinPool
    simp only [shutdownStep, hc] at this
    split at this
    · cases this
    · next hall =>
      refine absurd (all_eq_true.2 fun v hv => ?_) hall
      obtain ⟨w, hw⟩ := mem_iff_getElem?.1 hv
      rw [h.pool_ended (by simp [stopped, hc]) hh hw]
  | poolJoined => simpa [shutdownStep, hc] using hnone .sweep

theorem Calm.clear (h : s.Calm) (hinv : Inv es s) (hlt : s.requests.length < 2 ^ 32) (hl : Closing s)
    (hc : s.closing = .flagged) : Clear s := by
  refine ⟨hl, h.1, fun hne => absurd hc hne, ?_⟩
  intro w calls c x hw hx
  have hnd := h.2 w calls c x hw hx
  by_cases hcomp : x.completed = true
  · exact .completed hcomp
  by_cases hheld : s.Held c
  · exact .held hheld
  by_cases hclean : s.InCleanup c
  · exact .inCleanup hclean
  by_cases hans : s.Tabled c x ∧ s.Matching x.id
  · exact .answered hans.1 hans.2 fun d y hy _ hdc => hinv.id_ne hlt hx hy hdc
  -- the request did not pass the test, or the sender has refused it
  have hphase : ¬(x.phase = .passed ∨ x.phase = .registered ∨ x.phase = .returned) := fun hp =>
    hnd ⟨hp, by simpa using hcomp, hheld, hclean, hans⟩
  cases hp : x.phase with
  | entered => exact .sending (.inl hp)
  | refused => exact .sending (.inr (.inl hp))
  | failed => exact .sending (.inr (.inr hp))
  | declined => exact absurd (hl.light.declined hx hp) hcomp
  | passed | registered | returned => simp [hp] at hphase

theorem run_closing (h : run exec start es = some s) (hc : s.closing = .flagged) : Closing s :=
  ⟨run_light h, by simp [isShutdown, hc]⟩

/-- From a state in which `m_shutdown` was set, the threads of the client take at most `s.rank` steps.  When they have come to
rest `shutdown()` has returned, in all schedules, exactly if the state is calm. -/
theorem shutdown_returns_iff (h : run exec start es = some s) (hlt : s.requests.length < 2 ^ 32)
    (hc : s.closing = .flagged) :
    (∀ fs p, run exec s fs = some p → fs.countP CdpEvent.internal ≤ s.rank) ∧
      ((∀ fs p, run exec s fs = some p → Halted exec CdpEvent.internal p → p.closing = .returned) ↔ s.Calm) := by
  have hl := run_closing h hc
  refine ⟨fun fs p hrun => ?_, fun hret => calm_of_returns hl hc hret, fun hcalm fs p hrun hhalt => ?_⟩
  · have hrank : p.rank + fs.countP CdpEvent.internal ≤ s.rank := run_rank
      (fun hrun he => (hl.reaches ⟨_, hrun⟩).light.exec_rank (hl.reaches ⟨_, hrun⟩).shut he) hrun
    omega
  · have hclr := hcalm.clear (run_inv h hlt) hlt hl hc
    exact (run_induction (P := fun _ p => Clear p) hclr (fun _ ih he => ih.step he) hrun).returned hhalt

def waitingCallback : List CdpEvent :=
  [.handleMessage (some (.obj [("method", .str "Page.loadEventFired")])) [1], .worker .loop, .worker .lock, .worker .process,
    .worker .dispatch, .pool 0 .take, .pool 0 .call, .pool 0 (.send 0 .test), .pool 0 (.send 0 .register),
    .pool 0 (.send 0 (.transmit true))]

def answeredCallback : List CdpEvent :=
  waitingCallback ++ [.handleMessage (some (.obj [("id", .int 1), ("result", .null)])) [], .worker .loop, .worker .lock,
    .worker .process, .shutdown .flag]

theorem shutdown_returns_answeredCallback : ∃ s, run exec start answeredCallback = some s ∧ s.requests.length < 2 ^ 32 ∧
    s.closing = .flagged ∧ ∀ fs p, run exec s fs = some p → Halted exec CdpEvent.internal p → p.closing = .returned := by
  have hrun : run exec start answeredCallback = some ((run exec start answeredCallback).get rfl) := rfl
  refine ⟨_, hrun, by decide, rfl, (shutdown_returns_iff hrun (by decide) rfl).2.2 ⟨nofun, ?_⟩⟩
  intro w calls c x hw hx hd
  have hpool : ((run exec start answeredCallback).get rfl).pool = [.running 0 (some 0), .idle, .idle, .idle] := rfl
  rw [hpool] at hw
  cases w with
  | zero =>
    cases hw
    cases hx
    exact hd.2.2.2.2 ⟨rfl, 1, .ok .null, rfl, rfl⟩
  | succ w =>
    have hidle : ∀ b ∈ [PoolWorker.idle, .idle, .idle], b = .idle := by simp
    cases hidle _ (mem_of_getElem? hw)

theorem callback_blocks_shutdown : ∃ s, run exec start (waitingCallback ++ [.shutdown .flag]) = some s ∧
    ∀ fs p, run exec s fs = some p → p.closing ≠ .returned := by
  have hs : run exec start (waitingCallback ++ [.shutdown .flag]) =
      some ((run exec start (waitingCallback ++ [.shutdown .flag])).get rfl) := rfl
  refine ⟨_, hs, fun fs p hrun => ?_⟩
  have hb : Blocked ((run exec start (waitingCallback ++ [.shutdown .flag])).get rfl) 0 0 :=
    ⟨⟨nofun, nofun⟩, ⟨0, rfl⟩, ⟨_, rfl, rfl, rfl⟩, nofun, nofun, nofun, nofun⟩
  exact hb.run_closing (run_closing hs rfl) hrun

end CdpClient

end CloudeLoader.Cdp
