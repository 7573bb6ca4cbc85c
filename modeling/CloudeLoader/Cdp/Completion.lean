import CloudeLoader.Cdp.Requests

/-!
# Every future is completed once

`completed_iff` says for which runs every future is completed exactly once, with an outcome of its own, when everything
has finished.
-/

namespace CloudeLoader.Cdp

open JsonDoc Transition List Option

variable {a : SendAction}

/-- The request was completed by the response to another one. -/
def CdpRequest.Misled (x : CdpRequest) : Prop := ∃ raw result, x.promise = some (.response raw result) ∧ raw ≠ x.id

namespace CdpClient

variable {p p' : CdpClient} {e : CdpEvent} {es : List CdpEvent} {c : Nat} {x : CdpRequest}

/-! ### Runs in which a request is lost -/

/-- The request was completed by the response to another one, or it waits in the table after `shutdown()`. -/
def BadReq (p : CdpClient) (c : Nat) (x : CdpRequest) : Prop :=
  x.Misled ∨ (p.closing = .returned ∧ p.Tabled c x ∧ x.phase = .returned)

def Bad (p : CdpClient) : Prop := ∃ c x, p.requests[c]? = some x ∧ p.BadReq c x

theorem bad_set {x'} {U : Prop} (hx : p.requests[c]? = some x) (hreq : p'.requests = p.requests.set c x')
    (hoth : ∀ {d : Nat} {y}, p.requests[d]? = some y → d ≠ c → (p'.BadReq d y ↔ p.BadReq d y))
    (hc : p'.BadReq c x' ↔ p.BadReq c x ∨ U) : p'.Bad ↔ p.Bad ∨ U := by
  have hself : p'.requests[c]? = some x' := by rw [hreq, getElem?_set_self (lt_of_getElem? hx)]
  constructor
  · rintro ⟨d, y, hy, hbad⟩
    rw [hreq] at hy
    rcases getElem?_move hx hy with ⟨rfl, rfl⟩ | ⟨hd, hy⟩
    · exact (hc.1 hbad).imp_left fun hb => ⟨d, x, hx, hb⟩
    · exact .inl ⟨d, y, hy, (hoth hy hd).1 hbad⟩
  · rintro (⟨d, y, hy, hbad⟩ | hu)
    · by_cases hd : d = c
      · subst hd
        cases hx.symm.trans hy
        exact ⟨d, x', hself, hc.2 (.inl hbad)⟩
      · exact ⟨d, y, by rw [hreq, getElem?_set_ne (Ne.symm hd), hy], (hoth hy hd).2 hbad⟩
    · exact ⟨c, x', hself, hc.2 (.inr hu)⟩

theorem bad_same (hreq : p'.requests = p.requests)
    (hbad : ∀ {d : Nat} {y}, p.requests[d]? = some y → (p'.BadReq d y ↔ p.BadReq d y)) : p'.Bad ↔ p.Bad := by
  unfold Bad
  rw [hreq]
  exact exists_congr fun d => exists_congr fun y => and_congr_right fun hy => hbad hy

theorem badReq_of_open (hc : p.closing ≠ .returned) : p.BadReq c x ↔ x.Misled := or_iff_left fun hb => hc hb.1

theorem ReqInv.promise_none (h : ReqInv es p c x) (hc : x.completed = false) : x.promise = none := by
  have := h.promise_eq
  rw [hc] at this
  exact not_isSome_iff_eq_none.1 (by rw [this]; simp)

theorem ReqInv.misled_complete_iff (h : ReqInv es p c x) {v} (hv : ∀ raw result, v ≠ .response raw result) :
    (x.complete v).Misled ↔ x.Misled := by
  unfold CdpRequest.complete
  split
  · exact Iff.rfl
  · next hc =>
    refine iff_of_false ?_ (by simp [CdpRequest.Misled, h.promise_none (by simpa using hc)])
    rintro ⟨raw, result, hr, -⟩
    exact hv raw result (some.inj hr)

theorem badReq_sendStep (h : Inv es p) (hx : p.requests[c]? = some x) (hs : p.sendStep c x a = some p') :
    ∃ x', p'.requests = p.requests.set c x' ∧
      (p'.BadReq c x' ↔ p.BadReq c x ∨ (a = .transmit true ∧ p.closing = .returned ∧ p.Tabled c x)) := by
  have hr := h.req hx
  -- a step that leaves what the promise says, from a phase before the return to one without a request that waits
  have hstay : ∀ {q : CdpClient} {y : CdpRequest}, x.phase ≠ .returned → a ≠ .transmit true → (y.Misled ↔ x.Misled) →
      ¬(q.Tabled c y ∧ y.phase = .returned) →
      (q.BadReq c y ↔ p.BadReq c x ∨ (a = .transmit true ∧ p.closing = .returned ∧ p.Tabled c x)) := by
    intro q y hphase ha hiff hy
    rw [or_iff_left fun hu => ha hu.1]
    exact or_congr hiff (iff_of_false (fun hb => hy hb.2) fun hb => hphase hb.2.2)
  cases a with
  | test =>
    obtain ⟨hphase, ⟨⟩⟩ := ite_none_right_eq_some.1 hs
    exact ⟨_, rfl, hstay (by simp [hphase]) nofun Iff.rfl (by cases p.isShutdown <;> simp)⟩
  | refuse =>
    obtain ⟨hphase, ⟨⟩⟩ := ite_none_right_eq_some.1 hs
    exact ⟨_, rfl, hstay (by simp [hphase]) nofun (hr.misled_complete_iff (v := .shutdown) nofun) (by simp)⟩
  | register =>
    obtain ⟨hphase, ⟨⟩⟩ := ite_none_right_eq_some.1 hs
    exact ⟨_, rfl, hstay (by simp [hphase]) nofun Iff.rfl (by simp)⟩
  | transmit ok =>
    obtain ⟨hphase, ⟨⟩⟩ := ite_none_right_eq_some.1 hs
    refine ⟨_, rfl, ?_⟩
    cases ok with
    | true =>
      constructor
      · rintro (hb | ⟨hc, ht, -⟩)
        · exact .inl (.inl hb)
        · exact .inr ⟨rfl, hc, ht⟩
      · rintro ((hb | ⟨-, -, hb⟩) | ⟨-, hc, ht⟩)
        · exact .inl hb
        · cases hphase.symm.trans hb
        · exact .inr ⟨hc, ht, rfl⟩
    | false => exact hstay (by simp [hphase]) nofun Iff.rfl (by simp)
  | fail =>
    obtain ⟨hphase, ⟨⟩⟩ := ite_none_right_eq_some.1 hs
    exact ⟨_, rfl, hstay (by simp [hphase]) nofun (hr.misled_complete_iff (v := .sendFailed) nofun) (by simp [Tabled])⟩

theorem Inv.sendStep_tabled (h : Inv es p) (hlt : p.requests.length < 2 ^ 32) (hx : p.requests[c]? = some x)
    (hs : p.sendStep c x a = some p') {d : Nat} {y} (hy : p.requests[d]? = some y) (hd : d ≠ c) :
    p'.Tabled d y ↔ p.Tabled d y := by
  have hne := h.id_ne hlt hx hy hd
  cases a <;> simp only [CdpClient.sendStep] at hs <;> split at hs <;> cases hs <;>
    simp only [Tabled, setRequest, update_of_id_ne hne]

theorem safe_send (hx : p.requests[c]? = some x) (he : e.Sends c a) :
    p.safe e = false ↔ a = .transmit true ∧ p.closing = .returned ∧ p.Tabled c x := by
  rcases he with rfl | ⟨w, rfl⟩
  · cases a with
    | transmit ok => cases ok <;> simp [safe, tabled_iff hx]
    | test | refuse | register | fail => simp [safe]
  · cases a with
    | transmit ok => cases ok <;> simp [safe, tabled_iff hx]
    | test | refuse | register | fail => simp [safe]

theorem bad_step (h : Inv es p) (hlt : p.requests.length < 2 ^ 32) (he : p.exec e = some p') :
    p'.Bad ↔ p.Bad ∨ p.safe e = false := by
  have hopen : ∀ {q : CdpClient} {x x' : CdpRequest} {c : Nat}, p.closing ≠ .returned → q.closing = p.closing →
      (x'.Misled ↔ x.Misled) → (q.BadReq c x' ↔ p.BadReq c x) := by
    intro q x x' c hc hq hiff
    rw [badReq_of_open hc, badReq_of_open (by rwa [hq]), hiff]
  -- while a thread is at work `shutdown()` has not returned
  have hworker : p.worker ≠ .ended → p.closing ≠ .returned := fun hw hc => hw (h.threads.workerEnded (by simp [hc]))
  have hcleanup : p.cleanup ≠ .ended → p.closing ≠ .returned := fun hw hc => hw (h.threads.cleanupEnded (by simp [hc]))
  cases exec_effect he with
  | quiet hsafe _ hreq hpend _ _ hclosing _ =>
    rw [bad_same hreq fun _ => by simp only [BadReq, Tabled, hpend, hclosing], hsafe]
    simp
  | enter pooled hsafe _ hreq hpend _ _ hclosing =>
    rw [hsafe]
    simp only [Bool.true_eq_false, or_false]
    have hsame : ∀ {d y}, p'.BadReq d y ↔ p.BadReq d y := by simp only [BadReq, Tabled, hpend, hclosing, implies_true]
    constructor
    · rintro ⟨d, y, hy, hbad⟩
      rw [hreq] at hy
      rcases getElem?_arrive hy with hy | ⟨-, rfl⟩
      · exact ⟨d, y, hy, hsame.1 hbad⟩
      · rcases hbad with ⟨raw, result, hr, -⟩ | ⟨-, -, hph⟩
        · cases hr
        · cases hph
    · rintro ⟨d, y, hy, hbad⟩
      exact ⟨d, y, by rw [hreq, List.getElem?_append_left (lt_of_getElem? hy), hy], hsame.2 hbad⟩
  | send hsend hx hs =>
    obtain ⟨x', hreq, hiff⟩ := badReq_sendStep h hx hs
    have hclosing := (sendStep_threads hs).2.2.2.2.1
    rw [safe_send hx hsend]
    refine bad_set hx hreq (fun hy hd => ?_) hiff
    simp only [BadReq, h.sendStep_tabled hlt hx hs hy hd, hclosing]
  | take hw _ hp =>
    have hc := hworker (by simp [hw])
    rw [bad_same (by rw [hp]) fun _ => hopen hc (by rw [hp]) Iff.rfl]
    simp [safe]
  | @settle c raw result hw hp =>
    have hc := hworker (by simp [hw])
    obtain ⟨x, hx⟩ := h.heldOk ⟨raw, result, hw⟩
    refine bad_set hx (by rw [hp]; exact modify_eq_set hx _) (fun _ _ => hopen hc (by rw [hp]) Iff.rfl) ?_
    rw [badReq_of_open hc, badReq_of_open (by rw [hp]; exact hc)]
    cases hcomp : x.completed with
    | true => simp [CdpRequest.Misled, CdpRequest.complete, hcomp, safe, hw, hx]
    | false => simp [CdpRequest.Misled, CdpRequest.complete, hcomp, safe, hw, hx, (h.req hx).promise_none hcomp]
  | stale hcl hp =>
    have hc := hcleanup (by simp [hcl])
    rw [bad_same (by rw [hp]) fun _ => hopen hc (by rw [hp]) Iff.rfl]
    simp [safe]
  | @expire c cs hcl hp =>
    have hc := hcleanup (by simp [hcl])
    obtain ⟨⟨x, hx⟩, -⟩ := h.cleanupOk ⟨c :: cs, hcl, mem_cons_self⟩
    refine bad_set hx (by rw [hp]; exact modify_eq_set hx _) (fun _ _ => hopen hc (by rw [hp]) Iff.rfl) ?_
    rw [hopen hc (by rw [hp]) ((h.req hx).misled_complete_iff (by simp))]
    simp [safe]
  | sweep hcl hp =>
    subst hp
    have hc : p.closing ≠ .returned := by simp [hcl]
    have hiff : ∀ {d : Nat} {x : CdpRequest}, p.requests[d]? = some x →
        (p.failAll.BadReq d (if p.pending x.id = some d then x.complete .shutdown else x) ↔ p.BadReq d x) := by
      intro d x hx
      rw [badReq_of_open hc]
      have hno : ∀ y, ¬(p.failAll.closing = .returned ∧ p.failAll.Tabled d y ∧ y.phase = .returned) := by
        rintro y ⟨-, ht, -⟩
        cases ht
      unfold BadReq
      rw [or_iff_left (hno _)]
      split
      · exact (h.req hx).misled_complete_iff (by simp)
      · exact Iff.rfl
    constructor
    · rintro ⟨d, y, hy, hbad⟩
      obtain ⟨x, hx, rfl⟩ := failAll_getElem? hy
      exact .inl ⟨d, x, hx, (hiff hx).1 hbad⟩
    · rintro (⟨d, x, hx, hbad⟩ | hs)
      · exact ⟨d, _, by simp [failAll, getElem?_mapIdx, hx], (hiff hx).2 hbad⟩
      · simp [safe] at hs

theorem along_safe_iff (h : run exec start es = some p) (hlt : p.requests.length < 2 ^ 32) :
    along exec safe start es = true ↔ ¬p.Bad := by
  refine run_induction (P := fun es p => p.requests.length < 2 ^ 32 → (along exec safe start es = true ↔ ¬p.Bad)) ?_ ?_ h hlt
  · intro _
    refine iff_of_true rfl ?_
    rintro ⟨c, x, hx, -⟩
    simp [start] at hx
  · intro fs q e q' hrun ih he hlt'
    have hle := exec_length_le he
    have hltq : q.requests.length < 2 ^ 32 := by omega
    rw [along_concat hrun, Bool.and_eq_true, ih hltq, bad_step (run_inv hrun hltq) hltq he, not_or, Bool.not_eq_false]

def Finished (p : CdpClient) : Prop :=
  p.closing = .returned ∧ ∀ {c : Nat} {x}, p.requests[c]? = some x → x.phase = .returned ∨ x.phase = .declined

theorem completedOnce_iff (h : Inv es p) (hfin : p.Finished) (hx : p.requests[c]? = some x) :
    x.CompletedOnce es c ↔ ¬p.BadReq c x := by
  have hr := h.req hx
  have hnh : ¬p.Held c := by
    rintro ⟨raw, result, hw⟩
    cases hw.symm.trans (h.threads.workerEnded (by simp [hfin.1]))
  have hnc : ¬p.InCleanup c := by
    rintro ⟨cs, hcs, -⟩
    cases hcs.symm.trans (h.threads.cleanupEnded (by simp [hfin.1]))
  constructor
  · rintro ⟨v, hv, -, -, hown⟩ (⟨raw, result, hp, hne⟩ | ⟨-, ht, -⟩)
    · exact hne (hown raw result (some.inj (hv.symm.trans hp)))
    · cases hv.symm.trans (hr.promise_none (hr.tabled ht).2.2.1)
  · intro hgood
    have hcomp : x.completed = true := by
      rcases hfin.2 hx with hph | hph
      · rcases hr.placed (by rw [hph]; rfl) with hcomp | ht | hh | hc
        · exact hcomp
        · exact absurd (.inr ⟨hfin.1, ht, hph⟩) hgood
        · exact absurd hh hnh
        · exact absurd hc hnc
      · have := hr.early (by rw [hph]; rfl)
        rw [this, hph]
        rfl
    obtain ⟨v, hv⟩ := isSome_iff_exists.1 (hr.promise_eq.trans hcomp)
    refine ⟨v, hv, by rw [hr.sets_eq, hcomp]; rfl, hr.source v hv, ?_⟩
    rintro raw result rfl
    by_contra hne
    exact hgood (.inl ⟨raw, result, hv, hne⟩)

/-- When everything has finished, after a run with fewer than `2 ^ 32` requests: every future was completed exactly once, with
an outcome of its own, if and only if the steps of the run were safe. -/
theorem completed_iff (h : run exec start es = some p) (hlt : p.requests.length < 2 ^ 32) (hfin : p.Finished) :
    (∀ (c : Nat) (x : CdpRequest), p.requests[c]? = some x → x.CompletedOnce es c) ↔ along exec safe start es = true := by
  rw [along_safe_iff h hlt]
  have hinv := run_inv h hlt
  constructor
  · rintro hall ⟨c, x, hx, hbad⟩
    exact (completedOnce_iff hinv hfin hx).1 (hall c x hx) hbad
  · intro hgood c x hx
    exact (completedOnce_iff hinv hfin hx).2 fun hbad => hgood ⟨c, x, hx, hbad⟩

theorem finished_of_single (hc : p.closing = .returned) (hreq : p.requests = [x]) (hx : x.phase = .returned) : p.Finished := by
  refine ⟨hc, fun hy => .inl ?_⟩
  rw [hreq] at hy
  rw [mem_singleton.1 (mem_of_getElem? hy), hx]

def shutdownRun : List CdpEvent :=
  [.shutdown .flag, .shutdown .notify, .worker .loop, .worker .drain, .shutdown .joinWorker, .cleanup .check,
    .shutdown .joinCleanup, .shutdown .stopPool, .pool 0 .exit, .pool 1 .exit, .pool 2 .exit, .pool 3 .exit,
    .shutdown .joinPool, .shutdown .sweep]

def pendingAtShutdown : List CdpEvent :=
  [.sendHost, .caller 0 .test, .caller 0 .register, .caller 0 (.transmit true)] ++ shutdownRun

theorem completed_iff_pendingAtShutdown : ∃ p, run exec start pendingAtShutdown = some p ∧ p.Finished ∧
    ∀ (c : Nat) (x : CdpRequest), p.requests[c]? = some x → x.CompletedOnce pendingAtShutdown c := by
  have hfin := finished_of_single (p := (run exec start pendingAtShutdown).get rfl) rfl rfl rfl
  exact ⟨_, rfl, hfin, (completed_iff rfl (by decide) hfin).2 rfl⟩

/-- The client is shut down between the test in `send_host` and the registration.  Everything returns, and the future is
never completed. -/
theorem registered_after_sweep_lost :
    ∃ p x, run exec start ([.sendHost, .caller 0 .test] ++ shutdownRun ++ [.caller 0 .register, .caller 0 (.transmit true)]) =
      some p ∧ p.Finished ∧ p.requests = [x] ∧ x.promise = none := by
  exact ⟨_, _, rfl, finished_of_single rfl rfl rfl, rfl, rfl⟩

/-- In every state of every run with fewer than `2 ^ 32` requests, a promise was set at most once, with an outcome of the run,
and a request that was registered is completed, in the table, or taken from it by one of the two threads that complete it. -/
theorem request_accounted (h : run exec start es = some p) (hlt : p.requests.length < 2 ^ 32) (hx : p.requests[c]? = some x) :
    x.sets ≤ 1 ∧ (∀ v, x.promise = some v → v.Source es c) ∧
      (x.phase.placed = true → x.promise = none → p.Tabled c x ∨ p.Held c ∨ p.InCleanup c) ∧
      (p.Tabled c x → x.promise = none ∧ ¬p.Held c ∧ ¬p.InCleanup c) := by
  have hr := (run_inv h hlt).req hx
  refine ⟨?_, hr.source, fun hp hn => ?_, fun ht => ?_⟩
  · rw [hr.sets_eq]
    split <;> omega
  · refine (hr.placed hp).resolve_left fun hc => ?_
    simp [← hr.promise_eq, hn] at hc
  · exact ⟨hr.promise_none (hr.tabled ht).2.2.1, (hr.tabled ht).1, (hr.tabled ht).2.1⟩

theorem request_accounted_pendingAtShutdown :
    ∃ p x, run exec start pendingAtShutdown = some p ∧ p.requests[0]? = some x ∧ x.sets ≤ 1 ∧
      (∀ v, x.promise = some v → v.Source pendingAtShutdown 0) ∧
      (x.phase.placed = true → x.promise = none → p.Tabled 0 x ∨ p.Held 0 ∨ p.InCleanup 0) ∧
      (p.Tabled 0 x → x.promise = none ∧ ¬p.Held 0 ∧ ¬p.InCleanup 0) :=
  ⟨_, _, rfl, rfl, request_accounted rfl (by decide) rfl⟩

end CdpClient

end CloudeLoader.Cdp
