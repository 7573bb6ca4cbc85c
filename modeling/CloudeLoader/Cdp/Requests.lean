import CloudeLoader.Cdp.Steps

/-!
# The requests of the CDP client

A request is in one of three places until it is completed: in the table, in the hands of the worker, or in those of the
cleanup thread.
-/

namespace CloudeLoader.Cdp

open JsonDoc Transition List Option

variable {fs : List CdpEvent}

namespace CdpClient

variable {p p' : CdpClient} {e : CdpEvent} {es : List CdpEvent} {c : Nat} {x : CdpRequest}

/-- What holds of one request after the events `es`. -/
structure ReqInv (es : List CdpEvent) (p : CdpClient) (c : Nat) (x : CdpRequest) : Prop where
  id_eq : x.id = int32 (c + 1)
  sets_eq : x.sets = if x.completed then 1 else 0
  promise_eq : x.promise.isSome = x.completed
  source : ∀ v, x.promise = some v → v.Source es c
  tabled : p.Tabled c x → ¬p.Held c ∧ ¬p.InCleanup c ∧ x.completed = false ∧ x.phase.placed = true
  held : p.Held c → ¬p.InCleanup c ∧ x.phase.placed = true
  inCleanup : p.InCleanup c → x.phase.placed = true
  early : x.phase.placed = false → x.completed = decide (x.phase = .declined)
  placed : x.phase.placed = true → x.completed = true ∨ p.Tabled c x ∨ p.Held c ∨ p.InCleanup c
  failed : x.phase = .failed → ∃ e ∈ es, e.Sends c (.transmit false)
  refused : x.phase = .refused → .shutdown .flag ∈ es

/-- The entry of the request may move while the request stays as it is. -/
theorem ReqInv.moved (h : ReqInv es p c x) (hsub : es ⊆ fs)
    (ht : p'.Tabled c x → ¬p'.Held c ∧ ¬p'.InCleanup c ∧ x.completed = false ∧ x.phase.placed = true)
    (hh : p'.Held c → ¬p'.InCleanup c ∧ x.phase.placed = true) (hc : p'.InCleanup c → x.phase.placed = true)
    (hp : x.phase.placed = true → x.completed = true ∨ p'.Tabled c x ∨ p'.Held c ∨ p'.InCleanup c) : ReqInv fs p' c x := by
  refine ⟨h.id_eq, h.sets_eq, h.promise_eq, fun v hv => (h.source v hv).mono hsub, ht, hh, hc, h.early, hp, ?_,
    fun hr => hsub (h.refused hr)⟩
  intro hf
  obtain ⟨e, hmem, he⟩ := h.failed hf
  exact ⟨e, hsub hmem, he⟩

theorem ReqInv.mono (h : ReqInv es p c x) (hsub : es ⊆ fs) (ht : p'.Tabled c x ↔ p.Tabled c x)
    (hh : p'.Held c ↔ p.Held c) (hc : p'.InCleanup c ↔ p.InCleanup c) : ReqInv fs p' c x := by
  refine h.moved hsub ?_ ?_ ?_ ?_ <;> simp only [ht, hh, hc]
  exacts [h.tabled, h.held, h.inCleanup, h.placed]

theorem ReqInv.unplaced (h : ReqInv es p c x) (hp : x.phase.placed = false) :
    ¬p.Tabled c x ∧ ¬p.Held c ∧ ¬p.InCleanup c := by
  refine ⟨fun ht => ?_, fun hh => ?_, fun hc => ?_⟩
  · have := (h.tabled ht).2.2.2
    rw [hp] at this
    cases this
  · have := (h.held hh).2
    rw [hp] at this
    cases this
  · have := h.inCleanup hc
    rw [hp] at this
    cases this

theorem complete_completed (x : CdpRequest) (v : Completion) : (x.complete v).completed = true := by
  unfold CdpRequest.complete
  split
  · assumption
  · rfl

@[simp] theorem complete_id (x : CdpRequest) (v : Completion) : (x.complete v).id = x.id := by
  unfold CdpRequest.complete
  split <;> rfl

@[simp] theorem complete_phase (x : CdpRequest) (v : Completion) : (x.complete v).phase = x.phase := by
  unfold CdpRequest.complete
  split <;> rfl

theorem ReqInv.complete_ok (h : ReqInv es p c x) (v : Completion) :
    (x.complete v).sets = 1 ∧ (x.complete v).promise.isSome = true := by
  unfold CdpRequest.complete
  have hsets := h.sets_eq
  have hprom := h.promise_eq
  split
  · next hc =>
    rw [hc] at hsets hprom
    exact ⟨hsets, hprom⟩
  · next hc => simp_all

theorem ReqInv.complete_source (h : ReqInv es p c x) {v} (hsub : es ⊆ fs)
    (hv : v.Source fs c) : ∀ u, (x.complete v).promise = some u → u.Source fs c := by
  intro u hu
  unfold CdpRequest.complete at hu
  split at hu
  · exact (h.source u hu).mono hsub
  · obtain rfl : v = u := Option.some.inj hu
    exact hv

theorem ReqInv.completeHeld (h : ReqInv es p c x) {v} (hsub : es ⊆ fs)
    (hv : v.Source fs c) (hplc : x.phase.placed = true) (ht : ¬p'.Tabled c x) (hh : ¬p'.Held c) (hc : ¬p'.InCleanup c) :
    ReqInv fs p' c (x.complete v) := by
  obtain ⟨hsets, hprom⟩ := h.complete_ok v
  have hcomp := complete_completed x v
  refine ⟨by rw [complete_id]; exact h.id_eq, by rw [hsets, hcomp]; rfl, by rw [hprom, hcomp],
    h.complete_source hsub hv, ?_, fun hh' => absurd hh' hh, fun hc' => absurd hc' hc, ?_, fun _ => .inl hcomp, ?_, ?_⟩
  · unfold Tabled
    rw [complete_id]
    exact fun ht' => absurd ht' ht
  · rw [complete_phase, hplc]
    exact fun hf => by cases hf
  · rw [complete_phase]
    intro hf
    obtain ⟨e, hmem, he⟩ := h.failed hf
    exact ⟨e, hsub hmem, he⟩
  · rw [complete_phase]
    exact fun hr => hsub (h.refused hr)

structure Inv (es : List CdpEvent) (p : CdpClient) : Prop where
  threads : ThreadInv es p
  next : p.nextId = int32 (p.requests.length + 1)
  table : ∀ {i c}, p.pending i = some c → ∃ x, p.requests[c]? = some x ∧ x.id = i
  req : ∀ {c x}, p.requests[c]? = some x → ReqInv es p c x
  heldOk : ∀ {c}, p.Held c → ∃ x, p.requests[c]? = some x
  nodup : ∀ {cs}, p.cleanup = .holding cs → cs.Nodup
  cleanupOk : ∀ {c}, p.InCleanup c → (∃ x, p.requests[c]? = some x) ∧ ∃ stale, .cleanup (.take stale) ∈ es ∧ c ∈ stale

theorem Inv.id_ne (h : Inv es p) (hlt : p.requests.length < 2 ^ 32) {c d : Nat} {x y}
    (hx : p.requests[c]? = some x) (hy : p.requests[d]? = some y) (hne : d ≠ c) : y.id ≠ x.id := by
  rw [(h.req hx).id_eq, (h.req hy).id_eq]
  have hc := lt_of_getElem? hx
  have hd := lt_of_getElem? hy
  exact fun he => hne (int32_inj (by omega) (by omega) he)

theorem Inv.enter (h : Inv es p) (ht : ThreadInv (es ++ [e]) p') {pooled} (hnext : p'.nextId = int32 (p.nextId + 1))
    (hreq : p'.requests = p.requests ++ [⟨p.nextId, .entered, false, none, 0, pooled⟩]) (hpend : p'.pending = p.pending)
    (hworker : p'.worker = p.worker) (hcleanup : p'.cleanup = p.cleanup) : Inv (es ++ [e]) p' := by
  have hsub : es ⊆ es ++ [e] := subset_append_left es _
  have hold : ∀ {c : Nat} {x : CdpRequest}, p.requests[c]? = some x → p'.requests[c]? = some x := by
    intro c x hx
    rw [hreq, List.getElem?_append_left (lt_of_getElem? hx), hx]
  have hh : ∀ c, p'.Held c ↔ p.Held c := fun c => by simp only [Held, hworker]
  have hc : ∀ c, p'.InCleanup c ↔ p.InCleanup c := fun c => by simp only [InCleanup, hcleanup]
  refine ⟨ht, ?_, ?_, ?_, ?_, fun hcs => h.nodup (hcleanup ▸ hcs), ?_⟩
  · rw [hnext, hreq, h.next]
    simp [int32]
  · intro i c hi
    rw [hpend] at hi
    obtain ⟨x, hx, hid⟩ := h.table hi
    exact ⟨x, hold hx, hid⟩
  · intro c x hx
    rw [hreq] at hx
    rcases getElem?_arrive hx with hx | ⟨rfl, rfl⟩
    · exact (h.req hx).mono hsub (by rw [Tabled, hpend]; exact Iff.rfl) (hh c) (hc c)
    · -- the new request has no entry yet
      have hnone : ∀ x, p.requests[p.requests.length]? ≠ some x := by simp
      have hnt : ¬p'.Tabled p.requests.length ⟨p.nextId, .entered, false, none, 0, pooled⟩ := by
        unfold Tabled
        rw [hpend]
        intro ht
        obtain ⟨x, hx, -⟩ := h.table ht
        exact hnone x hx
      have hnh : ¬p'.Held p.requests.length := by
        rw [hh]
        intro hheld
        obtain ⟨x, hx⟩ := h.heldOk hheld
        exact hnone x hx
      have hnc : ¬p'.InCleanup p.requests.length := by
        rw [hc]
        intro hin
        obtain ⟨⟨x, hx⟩, -⟩ := h.cleanupOk hin
        exact hnone x hx
      exact ⟨h.next, rfl, rfl, by simp, fun ht => absurd ht hnt, fun hheld => absurd hheld hnh,
        fun hin => absurd hin hnc, fun _ => rfl, by simp [SendPhase.placed], by simp, by simp⟩
  · intro c hheld
    obtain ⟨x, hx⟩ := h.heldOk ((hh c).1 hheld)
    exact ⟨x, hold hx⟩
  · intro c hin
    obtain ⟨⟨x, hx⟩, stale, hmem, hs⟩ := h.cleanupOk ((hc c).1 hin)
    exact ⟨⟨x, hold hx⟩, stale, hsub hmem, hs⟩

theorem Inv.setOne (h : Inv es p) (ht : ThreadInv (es ++ [e]) p') {x'} (hx : p.requests[c]? = some x)
    (hreq : p'.requests = p.requests.set c x') (hid : x'.id = x.id) (hnext : p'.nextId = p.nextId)
    (hpend : ∀ {i d}, p'.pending i = some d → p.pending i = some d ∨ (i = x.id ∧ d = c))
    (htab : ∀ {d : Nat} {y}, p.requests[d]? = some y → d ≠ c → p.Tabled d y → p'.Tabled d y)
    (hheld : ∀ {d}, p'.Held d → p.Held d) (hheld' : ∀ {d}, d ≠ c → p.Held d → p'.Held d)
    (hclean : ∀ {d}, p'.InCleanup d → p.InCleanup d) (hclean' : ∀ {d}, d ≠ c → p.InCleanup d → p'.InCleanup d)
    (hnod : ∀ {cs}, p'.cleanup = .holding cs → cs.Nodup) (hx' : ReqInv (es ++ [e]) p' c x') : Inv (es ++ [e]) p' := by
  have hsub : es ⊆ es ++ [e] := List.subset_append_left es _
  have hself : p'.requests[c]? = some x' := by rw [hreq, getElem?_set_self (lt_of_getElem? hx)]
  have hstay : ∀ {d : Nat} {y}, p.requests[d]? = some y → ∃ y', p'.requests[d]? = some y' ∧ y'.id = y.id := by
    intro d y hy
    by_cases hd : d = c
    · subst hd
      cases hx.symm.trans hy
      exact ⟨x', hself, hid⟩
    · exact ⟨y, by rw [hreq, getElem?_set_ne (Ne.symm hd), hy], rfl⟩
  refine ⟨ht, by rw [hnext, hreq, length_set, h.next], ?_, ?_, ?_, hnod, ?_⟩
  · intro i d hi
    rcases hpend hi with hi | ⟨rfl, rfl⟩
    · obtain ⟨y, hy, rfl⟩ := h.table hi
      exact hstay hy
    · exact ⟨x', hself, hid⟩
  · intro d y hy
    rw [hreq] at hy
    rcases getElem?_move hx hy with ⟨rfl, rfl⟩ | ⟨hd, hy⟩
    · exact hx'
    · refine (h.req hy).mono hsub ⟨?_, htab hy hd⟩ ⟨hheld, hheld' hd⟩ ⟨hclean, hclean' hd⟩
      intro htd
      rcases hpend htd with htd | ⟨-, hdc⟩
      · exact htd
      · exact absurd hdc hd
  · intro d hh
    obtain ⟨y, hy⟩ := h.heldOk (hheld hh)
    obtain ⟨y', hy', -⟩ := hstay hy
    exact ⟨y', hy'⟩
  · intro d hc
    obtain ⟨⟨y, hy⟩, stale, hmem, hs⟩ := h.cleanupOk (hclean hc)
    obtain ⟨y', hy', -⟩ := hstay hy
    exact ⟨⟨y', hy'⟩, stale, hsub hmem, hs⟩

theorem update_of_id_ne {pending : Int → Option Nat} {i j o} (hne : i ≠ j) :
    Function.update pending j o i = pending i := Function.update_of_ne hne o pending

theorem update_none {pending : Int → Option Nat} {i j} (h : Function.update pending j none i = some c) :
    i ≠ j ∧ pending i = some c := by
  have hne : i ≠ j := by
    rintro rfl
    simp at h
  exact ⟨hne, (update_of_id_ne hne).symm.trans h⟩

theorem update_some {pending : Int → Option Nat} {i j d} (h : Function.update pending j (some d) i = some c) :
    pending i = some c ∨ i = j ∧ c = d := by
  by_cases hij : i = j
  · subst hij
    rw [Function.update_self] at h
    exact .inr ⟨rfl, (some.inj h).symm⟩
  · exact .inl ((update_of_id_ne hij).symm.trans h)

theorem Inv.sendStep (h : Inv es p) (hlt : p.requests.length < 2 ^ 32) (ht : ThreadInv (es ++ [e]) p') {a}
    (he : e.Sends c a) (hx : p.requests[c]? = some x) (hs : p.sendStep c x a = some p') : Inv (es ++ [e]) p' := by
  have hsub : es ⊆ es ++ [e] := subset_append_left es _
  have hr := h.req hx
  have hsrc := fun v hv => (hr.source v hv).mono hsub
  cases a with
  | test =>
    obtain ⟨hphase, ⟨⟩⟩ := ite_none_right_eq_some.1 hs
    have hcomp : x.completed = false := by simpa [hphase] using hr.early (by rw [hphase]; rfl)
    obtain ⟨hnt, hnh, hnc⟩ := hr.unplaced (by rw [hphase]; rfl)
    refine h.setOne ht hx rfl rfl rfl .inl (fun _ _ htd => htd) id (fun _ hh => hh) id (fun _ hc => hc) h.nodup ?_
    refine ⟨hr.id_eq, hr.sets_eq, hr.promise_eq, hsrc, fun hc => absurd hc hnt, fun hh => absurd hh hnh,
      fun hc => absurd hc hnc, ?_, ?_, ?_, ?_⟩
    · intro _
      cases p.isShutdown <;> simp [hcomp]
    · cases p.isShutdown <;> simp [SendPhase.placed]
    · cases p.isShutdown <;> simp
    · intro hrf
      cases hsd : p.isShutdown with
      | true => exact hsub (h.threads.flagged (by simpa [isShutdown] using hsd))
      | false => simp [hsd] at hrf
  | refuse =>
    simp only [CdpClient.sendStep, ite_none_right_eq_some] at hs
    obtain ⟨hphase, ⟨⟩⟩ := hs
    obtain ⟨hnt, hnh, hnc⟩ := hr.unplaced (by rw [hphase]; rfl)
    obtain ⟨hsets, hprom⟩ := hr.complete_ok .shutdown
    have hcomp := complete_completed x .shutdown
    refine h.setOne ht hx rfl (complete_id x _) rfl .inl (fun _ _ htd => htd) id (fun _ hh => hh) id (fun _ hc => hc)
      h.nodup ?_
    refine ⟨(complete_id x _).trans hr.id_eq, by rw [hsets, hcomp]; rfl, by rw [hprom, hcomp],
      hr.complete_source hsub (hsub (hr.refused hphase)), ?_, fun hh => absurd hh hnh, fun hc => absurd hc hnc,
      fun _ => by rw [hcomp]; rfl, by simp [SendPhase.placed], by simp, by simp⟩
    rw [complete_id]
    exact fun hc => absurd hc hnt
  | register =>
    obtain ⟨hphase, ⟨⟩⟩ := ite_none_right_eq_some.1 hs
    have hcomp : x.completed = false := by simpa [hphase] using hr.early (by rw [hphase]; rfl)
    obtain ⟨hnt, hnh, hnc⟩ := hr.unplaced (by rw [hphase]; rfl)
    have hself : Function.update p.pending x.id (some c) x.id = some c := Function.update_self ..
    refine h.setOne ht hx rfl rfl rfl update_some ?_ id (fun _ hh => hh) id (fun _ hc => hc) h.nodup ?_
    · intro d y hy hd htd
      exact (update_of_id_ne (h.id_ne hlt hx hy hd)).trans htd
    · exact ⟨hr.id_eq, hr.sets_eq, hr.promise_eq, hsrc, fun _ => ⟨hnh, hnc, hcomp, rfl⟩, fun hh => absurd hh hnh,
        fun hc => absurd hc hnc, by simp [SendPhase.placed], fun _ => .inr (.inl hself), by simp, by simp⟩
  | transmit ok =>
    obtain ⟨hphase, ⟨⟩⟩ := ite_none_right_eq_some.1 hs
    have hplc : (if ok then SendPhase.returned else .failed).placed = true := by cases ok <;> rfl
    refine h.setOne ht hx rfl rfl rfl .inl (fun _ _ htd => htd) id (fun _ hh => hh) id (fun _ hc => hc) h.nodup ?_
    refine ⟨hr.id_eq, hr.sets_eq, hr.promise_eq, hsrc, ?_, fun hh => ⟨(hr.held hh).1, hplc⟩, fun _ => hplc, ?_, ?_, ?_,
      ?_⟩
    · intro hc
      obtain ⟨hnh, hnc, hcomp, -⟩ := hr.tabled hc
      exact ⟨hnh, hnc, hcomp, hplc⟩
    · intro hno
      cases hplc.symm.trans hno
    · exact fun _ => hr.placed (by rw [hphase]; rfl)
    · intro hf
      cases ok with
      | true => cases hf
      | false => exact ⟨e, by simp, he⟩
    · cases ok <;> simp
  | fail =>
    simp only [CdpClient.sendStep, ite_none_right_eq_some] at hs
    obtain ⟨hphase, ⟨⟩⟩ := hs
    obtain ⟨hsets, hprom⟩ := hr.complete_ok .sendFailed
    have hcomp := complete_completed x .sendFailed
    have hfld : (Completion.sendFailed).Source (es ++ [e]) c := by
      obtain ⟨f, hmem, hf⟩ := hr.failed hphase
      exact ⟨f, hsub hmem, hf⟩
    refine h.setOne ht hx rfl (complete_id x _) rfl (fun hi => .inl (update_none hi).2) ?_ id (fun _ hh => hh) id
      (fun _ hc => hc) h.nodup ?_
    · intro d y hy hd htd
      exact (update_of_id_ne (h.id_ne hlt hx hy hd)).trans htd
    · refine ⟨(complete_id x _).trans hr.id_eq, by rw [hsets, hcomp]; rfl, by rw [hprom, hcomp],
        hr.complete_source hsub hfld, ?_, fun hh => ⟨(hr.held hh).1, rfl⟩, fun _ => rfl, by simp [SendPhase.placed],
        fun _ => .inl hcomp, by simp, by simp⟩
      rw [complete_id]
      exact fun hc => absurd rfl (update_none hc).1

theorem Inv.moveEntries (h : Inv es p) (ht : ThreadInv (es ++ [e]) p') (hreq : p'.requests = p.requests)
    (hnext : p'.nextId = p.nextId) (hpend : ∀ {i d}, p'.pending i = some d → p.pending i = some d)
    (hheld : ∀ {d}, p'.Held d → ∃ y, p.requests[d]? = some y) (hnod : ∀ {cs}, p'.cleanup = .holding cs → cs.Nodup)
    (hclean : ∀ {d}, p'.InCleanup d →
      (∃ y, p.requests[d]? = some y) ∧ ∃ stale, .cleanup (.take stale) ∈ es ++ [e] ∧ d ∈ stale)
    (hr : ∀ {d : Nat} {y}, p.requests[d]? = some y → ReqInv (es ++ [e]) p' d y) : Inv (es ++ [e]) p' := by
  refine ⟨ht, by rw [hnext, hreq, h.next], ?_, ?_, ?_, hnod, ?_⟩
  · intro i d hi
    rw [hreq]
    exact h.table (hpend hi)
  · rw [hreq]
    exact hr
  · rw [hreq]
    exact hheld
  · rw [hreq]
    exact hclean

theorem Inv.quiet (h : Inv es p) (ht : ThreadInv (es ++ [e]) p') (hnext : p'.nextId = p.nextId)
    (hreq : p'.requests = p.requests) (hpend : p'.pending = p.pending) (hheld : ∀ c, p'.Held c ↔ p.Held c)
    (hclean : ∀ c, p'.InCleanup c ↔ p.InCleanup c) (hlist : ∀ cs, p'.cleanup = .holding cs → p.cleanup = .holding cs) :
    Inv (es ++ [e]) p' := by
  have hsub : es ⊆ es ++ [e] := subset_append_left es _
  refine h.moveEntries ht hreq hnext (fun hi => hpend ▸ hi) (fun hc => h.heldOk ((hheld _).1 hc))
    (fun hcs => h.nodup (hlist _ hcs)) (fun hc => ?_)
    fun hx => (h.req hx).mono hsub (by rw [Tabled, hpend]; exact Iff.rfl) (hheld _) (hclean _)
  obtain ⟨hx, stale, hmem, hs⟩ := h.cleanupOk ((hclean _).1 hc)
  exact ⟨hx, stale, hsub hmem, hs⟩

theorem Inv.take (h : Inv es p) (hlt : p.requests.length < 2 ^ 32) (ht : ThreadInv (es ++ [e]) p') {raw : Int}
    {result} (hw : p.worker = .parsed raw result) (hc : p.pending (int32 raw) = some c)
    (hp : p' = { p with worker := .holding c raw result, pending := Function.update p.pending (int32 raw) none }) :
    Inv (es ++ [e]) p' := by
  have hsub : es ⊆ es ++ [e] := subset_append_left es _
  obtain ⟨x, hx, hid⟩ := h.table hc
  have hnh : ∀ d, ¬p.Held d := by
    rintro d ⟨raw', result', hd⟩
    cases hw.symm.trans hd
  have hheld : ∀ {d}, p'.Held d → d = c := by
    rintro d ⟨raw', result', hd⟩
    rw [hp] at hd
    cases hd
    rfl
  have hpend : ∀ {i d}, p'.pending i = some d → p.pending i = some d := by
    intro i d hi
    rw [hp] at hi
    exact (update_none hi).2
  have hclean : p'.cleanup = p.cleanup := by rw [hp]
  have hin : ∀ d, p'.InCleanup d ↔ p.InCleanup d := fun d => by simp only [InCleanup, hclean]
  refine h.moveEntries ht (by rw [hp]) (by rw [hp]) hpend (fun hd => ⟨x, by rw [hheld hd]; exact hx⟩) (hclean ▸ h.nodup) ?_ ?_
  · intro d hd
    obtain ⟨hy, stale, hmem, hs⟩ := h.cleanupOk ((hin d).1 hd)
    exact ⟨hy, stale, hsub hmem, hs⟩
  · intro d y hy
    have hr := h.req hy
    by_cases hdc : d = c
    · -- the entry of this request goes from the table to the worker
      subst hdc
      cases hx.symm.trans hy
      have htd : p.Tabled d x := by rwa [Tabled, hid]
      have hnt : ¬p'.Tabled d x := by
        unfold Tabled
        rw [hp, hid]
        simp
      have hh : p'.Held d := ⟨raw, result, by rw [hp]⟩
      obtain ⟨-, hnc, -, hplc⟩ := hr.tabled htd
      exact hr.moved hsub (fun ht' => absurd ht' hnt) (fun _ => ⟨fun hc' => hnc ((hin d).1 hc'), hplc⟩) (fun _ => hplc)
        fun _ => .inr (.inr (.inl hh))
    · refine hr.mono hsub ⟨hpend, fun htd => ?_⟩ (iff_of_false (fun hd => hdc (hheld hd)) (hnh d)) (hin d)
      have hne : y.id ≠ int32 raw := by
        rw [← hid]
        exact h.id_ne hlt hx hy hdc
      unfold Tabled
      rw [hp]
      exact (update_of_id_ne hne).trans htd

theorem modify_eq_set {l : List CdpRequest} (hx : l[c]? = some x) (f : CdpRequest → CdpRequest) :
    l.modify c f = l.set c (f x) := by
  rw [modify_eq_set_getElem?, hx]
  rfl

theorem Inv.settle (h : Inv es p) (ht : ThreadInv (es ++ [e]) p') {raw : Int} {result : Except String Json}
    (hw : p.worker = .holding c raw result)
    (hp : p' = { p with worker := .top, requests := p.requests.modify c (·.complete (.response raw result)) }) :
    Inv (es ++ [e]) p' := by
  have hsub : es ⊆ es ++ [e] := subset_append_left es _
  have hheld : p.Held c := ⟨raw, result, hw⟩
  obtain ⟨x, hx⟩ := h.heldOk hheld
  have hr := h.req hx
  have hnh : ∀ d, ¬p'.Held d := by
    rintro d ⟨raw', result', hd⟩
    rw [hp] at hd
    cases hd
  have hseen : ResponseSeen es raw result := by
    have := h.threads.worker
    rwa [hw] at this
  have hpend : p'.pending = p.pending := by rw [hp]
  have hclean : p'.cleanup = p.cleanup := by rw [hp]
  have hin : ∀ {d}, p'.InCleanup d ↔ p.InCleanup d := by simp only [InCleanup, hclean, implies_true]
  obtain ⟨hnc, hplc⟩ := hr.held hheld
  refine h.setOne ht hx (by rw [hp]; exact modify_eq_set hx _) (complete_id x _) (by rw [hp]) (fun hi => .inl (hpend ▸ hi)) ?_
    (fun hd => absurd hd (hnh _)) ?_ hin.1 (fun _ => hin.2) (hclean ▸ h.nodup) ?_
  · intro d y _ _ htd
    rwa [Tabled, hpend]
  · rintro d hd ⟨raw', result', hd'⟩
    cases hw.symm.trans hd'
    exact absurd rfl hd
  · refine hr.completeHeld hsub (hseen.mono hsub) hplc ?_ (hnh c) (fun hc => hnc (hin.1 hc))
    unfold Tabled
    rw [hpend]
    exact fun htd => (hr.tabled htd).1 hheld

theorem Inv.expire (h : Inv es p) (ht : ThreadInv (es ++ [e]) p') {cs : List Nat} (hc : p.cleanup = .holding (c :: cs))
    (hp : p' = { p with cleanup := .holding cs, requests := p.requests.modify c (·.complete .timeout) }) :
    Inv (es ++ [e]) p' := by
  have hsub : es ⊆ es ++ [e] := subset_append_left es _
  have hinc : p.InCleanup c := ⟨c :: cs, hc, mem_cons_self⟩
  obtain ⟨⟨x, hx⟩, stale, hmem, hs⟩ := h.cleanupOk hinc
  have hr := h.req hx
  have hnod := h.nodup hc
  have hworker : p'.worker = p.worker := by rw [hp]
  have hpend : p'.pending = p.pending := by rw [hp]
  have hcleanup : p'.cleanup = .holding cs := by rw [hp]
  have hh : ∀ {d}, p'.Held d ↔ p.Held d := by simp only [Held, hworker, implies_true]
  have hin : ∀ {d}, p'.InCleanup d ↔ d ∈ cs := by
    intro d
    constructor
    · rintro ⟨ds, hds, hd⟩
      cases hcleanup.symm.trans hds
      exact hd
    · exact fun hd => ⟨cs, hcleanup, hd⟩
  have hnt : ¬p.Tabled c x := fun htd => (hr.tabled htd).2.1 hinc
  have hnh : ¬p.Held c := fun hd => (hr.held hd).1 hinc
  refine h.setOne ht hx (by rw [hp]; exact modify_eq_set hx _) (complete_id x _) (by rw [hp]) (fun hi => .inl (hpend ▸ hi)) ?_
    hh.1 (fun _ => hh.2) ?_ ?_ ?_ ?_
  · intro d y _ _ htd
    rwa [Tabled, hpend]
  · exact fun hd => ⟨c :: cs, hc, mem_cons_of_mem _ (hin.1 hd)⟩
  · rintro d hd ⟨ds, hds, hmem'⟩
    cases hc.symm.trans hds
    rcases mem_cons.1 hmem' with hdc | hmem'
    · exact absurd hdc hd
    · exact hin.2 hmem'
  · intro ds hds
    cases hcleanup.symm.trans hds
    exact (nodup_cons.1 hnod).2
  · refine hr.completeHeld hsub ⟨stale, hsub hmem, hs⟩ (hr.inCleanup hinc) ?_ (fun hd => hnh (hh.1 hd)) ?_
    · unfold Tabled
      rw [hpend]
      exact hnt
    · exact fun hd => (nodup_cons.1 hnod).1 (hin.1 hd)

theorem tabled_iff (hx : p.requests[c]? = some x) : p.tabled c = true ↔ p.Tabled c x := by
  simp [tabled, hx, Tabled]

theorem Inv.stale (h : Inv es p) {stale} (ht : ThreadInv (es ++ [.cleanup (.take stale)]) p')
    (hc : p.cleanup = .checked) (hp : p' = { p with
      cleanup := .holding ((range p.requests.length).filter fun c => p.tabled c && c ∈ stale)
      pending := fun i => (p.pending i).filter (· ∉ stale) }) : Inv (es ++ [.cleanup (.take stale)]) p' := by
  have hsub : es ⊆ es ++ [.cleanup (.take stale)] := subset_append_left es _
  have hworker : p'.worker = p.worker := by rw [hp]
  have hh : ∀ {d}, p'.Held d ↔ p.Held d := by simp only [Held, hworker, implies_true]
  have hnc : ∀ d, ¬p.InCleanup d := by
    rintro d ⟨cs, hcs, -⟩
    cases hc.symm.trans hcs
  have hcleanup : p'.cleanup = .holding ((range p.requests.length).filter fun c => p.tabled c && c ∈ stale) := by rw [hp]
  have hpend : ∀ {i d}, p'.pending i = some d ↔ p.pending i = some d ∧ d ∉ stale := by
    intro i d
    rw [hp]
    simp [Option.filter_eq_some_iff]
  have hin : ∀ {d : Nat} {y}, p.requests[d]? = some y → (p'.InCleanup d ↔ p.Tabled d y ∧ d ∈ stale) := by
    intro d y hy
    have hd := lt_of_getElem? hy
    constructor
    · rintro ⟨cs, hcs, hmem⟩
      cases hcleanup.symm.trans hcs
      simp only [mem_filter, mem_range, Bool.and_eq_true, decide_eq_true_eq, tabled_iff hy] at hmem
      exact hmem.2
    · intro hmem
      refine ⟨_, hcleanup, ?_⟩
      simp only [mem_filter, mem_range, Bool.and_eq_true, decide_eq_true_eq, tabled_iff hy]
      exact ⟨hd, hmem⟩
  refine h.moveEntries ht (by rw [hp]) (by rw [hp]) (fun hi => (hpend.1 hi).1) (fun hd => h.heldOk (hh.1 hd)) ?_ ?_ ?_
  · intro cs hcs
    cases hcleanup.symm.trans hcs
    exact nodup_range.filter _
  · rintro d ⟨cs, hcs, hmem⟩
    cases hcleanup.symm.trans hcs
    simp only [mem_filter, mem_range, Bool.and_eq_true, decide_eq_true_eq] at hmem
    exact ⟨⟨_, getElem?_eq_getElem hmem.1⟩, stale, by simp, hmem.2.2⟩
  · intro d y hy
    have hr := h.req hy
    refine hr.moved hsub ?_ ?_ ?_ ?_
    · intro htd
      obtain ⟨htd, hns⟩ := hpend.1 htd
      obtain ⟨hnh, -, hcomp, hplc⟩ := hr.tabled htd
      exact ⟨fun hd => hnh (hh.1 hd), fun hd => hns ((hin hy).1 hd).2, hcomp, hplc⟩
    · intro hd
      have hheld := hh.1 hd
      exact ⟨fun hd' => (hr.tabled ((hin hy).1 hd').1).1 hheld, (hr.held hheld).2⟩
    · exact fun hd => (hr.tabled ((hin hy).1 hd).1).2.2.2
    · intro hplc
      rcases hr.placed hplc with hcomp | htd | hd | hd
      · exact .inl hcomp
      · by_cases hs : d ∈ stale
        · exact .inr (.inr (.inr ((hin hy).2 ⟨htd, hs⟩)))
        · exact .inr (.inl (hpend.2 ⟨htd, hs⟩))
      · exact .inr (.inr (.inl (hh.2 hd)))
      · exact absurd hd (hnc d)

theorem failAll_getElem? {d y} (hy : p.failAll.requests[d]? = some y) :
    ∃ x, p.requests[d]? = some x ∧ y = if p.pending x.id = some d then x.complete .shutdown else x := by
  simp only [failAll, getElem?_mapIdx, map_eq_some_iff] at hy
  obtain ⟨x, hx, rfl⟩ := hy
  exact ⟨x, hx, rfl⟩

theorem Inv.sweep (h : Inv es p) (ht : ThreadInv (es ++ [e]) p') (hc : p.closing = .poolJoined) (hp : p' = p.failAll) :
    Inv (es ++ [e]) p' := by
  subst hp
  have hsub : es ⊆ es ++ [e] := subset_append_left es _
  have hstay : ∀ {d : Nat} {x}, p.requests[d]? = some x → ∃ y, p.failAll.requests[d]? = some y := by
    intro d x hx
    simp [failAll, getElem?_mapIdx, hx]
  have hlen : p.failAll.requests.length = p.requests.length := by simp [failAll]
  refine ⟨ht, ?_, nofun, ?_, ?_, h.nodup, ?_⟩
  · rw [hlen]
    exact h.next
  · intro d y hy
    obtain ⟨x, hx, rfl⟩ := failAll_getElem? hy
    have hr := h.req hx
    split
    · next htd =>
      obtain ⟨hnh, hnc, -, hplc⟩ := hr.tabled htd
      exact hr.completeHeld hsub (hsub (h.threads.flagged (by simp [hc]))) hplc nofun hnh hnc
    · next htd => exact hr.mono hsub (iff_of_false nofun htd) Iff.rfl Iff.rfl
  · intro d hd
    obtain ⟨x, hx⟩ := h.heldOk hd
    exact hstay hx
  · intro d hd
    obtain ⟨⟨x, hx⟩, stale, hmem, hs⟩ := h.cleanupOk hd
    exact ⟨hstay hx, stale, hsub hmem, hs⟩

theorem Inv.step (h : Inv es p) (hlt : p.requests.length < 2 ^ 32) (he : p.exec e = some p') : Inv (es ++ [e]) p' := by
  have ht := h.threads.step he
  cases exec_effect he with
  | quiet _ hnext hreq hpend hheld hclean _ hlist => exact h.quiet ht hnext hreq hpend hheld hclean hlist
  | enter pooled _ hnext hreq hpend hworker hcleanup _ => exact h.enter ht hnext hreq hpend hworker hcleanup
  | send hsend hx hs => exact h.sendStep hlt ht hsend hx hs
  | take hw hc hp => exact h.take hlt ht hw hc hp
  | settle hw hp => exact h.settle ht hw hp
  | stale hc hp => exact h.stale ht hc hp
  | expire hc hp => exact h.expire ht hc hp
  | sweep hc hp => exact h.sweep ht hc hp

theorem start_inv : Inv [] start := by
  refine ⟨⟨trivial, nofun, nofun, nofun, nofun⟩, ?_, nofun, ?_, nofun, nofun, nofun⟩
  · simp [start, int32, Int.bmod]
  · intro c x hx
    simp [start] at hx

theorem exec_length_le (he : p.exec e = some p') : p.requests.length ≤ p'.requests.length := by
  cases exec_effect he with
  | quiet _ _ hreq => rw [hreq]
  | enter pooled _ _ hreq => rw [hreq, length_append]; omega
  | send _ _ hs => rw [(sendStep_threads hs).2.2.2.2.2.2.2]
  | take _ _ hp | stale _ hp => rw [hp]
  | settle _ hp | expire _ hp => rw [hp]; simp
  | sweep _ hp => rw [hp]; simp [failAll]

theorem run_inv (h : run exec start es = some p) (hlt : p.requests.length < 2 ^ 32) : Inv es p := by
  refine run_induction (P := fun es p => p.requests.length < 2 ^ 32 → Inv es p) (fun _ => start_inv) ?_ h hlt
  intro fs q e q' _ ih he hlt'
  have hle := exec_length_le he
  have hlt : q.requests.length < 2 ^ 32 := by omega
  exact (ih hlt).step hlt he

end CdpClient

end CloudeLoader.Cdp
