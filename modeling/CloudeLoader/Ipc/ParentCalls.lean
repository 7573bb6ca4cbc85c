import CloudeLoader.Lib.JsonDoc
import CloudeLoader.Lib.Transition

/-!
# The calls of the parent to a plugin (`child_process.cc`)

Any number of threads are in `PluginProcess::call` at the same time, and the reader thread settles their promises.  They
meet in the table `m_pending`.
-/

namespace CloudeLoader.Ipc

open JsonDoc Transition List Option

/-- What a promise is set to: by a response, or when the loop of the reader has ended. -/
inductive Settled
  | response (id : Int) (result : Except String Json)
  | disconnected

/-- How `PluginProcess::call` ends: with what `future.get()` gives, or with one of its own exceptions. -/
inductive CallOutcome
  | settled (v : Settled)
  | sendFailure
  | timeout

inductive Phase
  | registering
  | sending
  | sendFailed
  | waiting
  | timedOut
  | done (outcome : CallOutcome)

structure PendingCall where
  id : Int
  phase : Phase
  promise : Option Settled
  sets : Nat

/-- The parent's side of a connection.  A call is named by its place in `calls`.  `hold` is the entry the reader has taken
out of the table and not settled yet, with the response. -/
structure ParentCalls where
  nextId : Int
  calls : List PendingCall
  pending : Int → Option Nat
  hold : Option (Nat × Int × Except String Json)
  reading : Bool

inductive CallEvent
  | fetchId
  | register (c : Nat)
  | send (c : Nat) (ok : Bool)
  | eraseUnsent (c : Nat)
  | wait (c : Nat) (ready : Bool)
  | eraseExpired (c : Nat)
  | response (id : Int) (result : Except String Json)
  | setPromise
  | disconnect

def PendingCall.settle (x : PendingCall) (v : Settled) : PendingCall :=
  { x with promise := some (x.promise.getD v), sets := x.sets + 1 }

/-! ### Where outcomes come from -/

/-- The steps a promise can have its value from: a response with the number of the call, or the end of the reader. -/
def Settled.From (es : List CallEvent) (id : Int) : Settled → Prop
  | .response i result => i = id ∧ .response i result ∈ es
  | .disconnected => .disconnect ∈ es

def CallOutcome.From (es : List CallEvent) (c : Nat) (id : Int) : CallOutcome → Prop
  | .settled v => v.From es id
  | .sendFailure => .send c false ∈ es
  | .timeout => .wait c false ∈ es

def Phase.From (es : List CallEvent) (c : Nat) (id : Int) : Phase → Prop
  | .sendFailed => .send c false ∈ es
  | .timedOut => .wait c false ∈ es
  | .done outcome => outcome.From es c id
  | _ => True

def Phase.isDone : Phase → Bool
  | .done _ => true
  | _ => false

def Phase.rank : Phase → Nat
  | .registering => 4
  | .sending => 3
  | .waiting => 2
  | .sendFailed | .timedOut => 1
  | .done _ => 0

theorem Phase.rank_le (phase : Phase) : phase.rank ≤ 4 := by
  cases phase <;> simp [rank]

theorem Settled.From.mono {es fs : List CallEvent} {id : Int} {v : Settled} (h : v.From es id) (hsub : es ⊆ fs) :
    v.From fs id := by
  cases v with
  | response i result => exact ⟨h.1, hsub h.2⟩
  | disconnected => exact hsub h

theorem Phase.From.mono {es fs : List CallEvent} {c : Nat} {id : Int} {phase : Phase} (h : phase.From es c id)
    (hsub : es ⊆ fs) : phase.From fs c id := by
  cases phase with
  | registering | sending | waiting => trivial
  | sendFailed | timedOut => exact hsub h
  | done outcome =>
    cases outcome with
    | settled v => exact Settled.From.mono h hsub
    | sendFailure | timeout => exact hsub h

namespace ParentCalls

def start : ParentCalls := ⟨1, [], fun _ => none, none, true⟩

def insert (pending : Int → Option Nat) (id : Int) (entry : Option Nat) : Int → Option Nat :=
  fun i => if i = id then entry else pending i

def exec (p : ParentCalls) : CallEvent → Option ParentCalls
  | .fetchId =>
    some { p with nextId := int32 (p.nextId + 1), calls := p.calls ++ [⟨p.nextId, .registering, none, 0⟩] }
  | .register c =>
    match p.calls[c]? with
    | some ⟨id, .registering, v, n⟩ =>
      some { p with calls := p.calls.set c ⟨id, .sending, v, n⟩, pending := insert p.pending id (some c) }
    | _ => none
  | .send c ok =>
    match p.calls[c]? with
    | some ⟨id, .sending, v, n⟩ =>
      some { p with calls := p.calls.set c ⟨id, if ok then .waiting else .sendFailed, v, n⟩ }
    | _ => none
  | .eraseUnsent c =>
    match p.calls[c]? with
    | some ⟨id, .sendFailed, v, n⟩ =>
      some { p with calls := p.calls.set c ⟨id, .done .sendFailure, v, n⟩, pending := insert p.pending id none }
    | _ => none
  | .wait c ready =>
    match p.calls[c]?, ready with
    | some ⟨id, .waiting, some v, n⟩, true =>
      some { p with calls := p.calls.set c ⟨id, .done (.settled v), some v, n⟩ }
    | some ⟨id, .waiting, none, n⟩, false => some { p with calls := p.calls.set c ⟨id, .timedOut, none, n⟩ }
    | _, _ => none
  | .eraseExpired c =>
    match p.calls[c]? with
    | some ⟨id, .timedOut, v, n⟩ =>
      some { p with calls := p.calls.set c ⟨id, .done .timeout, v, n⟩, pending := insert p.pending id none }
    | _ => none
  | .response id result =>
    if p.reading ∧ p.hold.isNone then
      some { p with hold := (p.pending id).map fun c => (c, id, result), pending := insert p.pending id none }
    else none
  | .setPromise =>
    match p.hold with
    | some (c, id, result) => some { p with hold := none, calls := p.calls.modify c (·.settle (.response id result)) }
    | none => none
  | .disconnect =>
    if p.reading ∧ p.hold.isNone then
      some { p with
        calls := p.calls.mapIdx fun c x => if p.pending x.id = some c then x.settle .disconnected else x
        pending := fun _ => none
        reading := false }
    else none

/-! ### What a step does to one call -/

def own (c : Nat) : CallEvent → Bool
  | .register d => c == d
  | .send d _ => c == d
  | .eraseUnsent d => c == d
  | .wait d _ => c == d
  | .eraseExpired d => c == d
  | _ => false

def completes (c : Nat) : CallEvent → Bool
  | .eraseUnsent d => c == d
  | .wait d ready => c == d && ready
  | .eraseExpired d => c == d
  | _ => false

def Tabled (p : ParentCalls) (c : Nat) (x : PendingCall) : Prop := p.pending x.id = some c

def Held (p : ParentCalls) (c : Nat) : Prop := ∃ id result, p.hold = some (c, id, result)

def TableOk (p : ParentCalls) : Prop := ∀ {id c}, p.pending id = some c → ∃ x, p.calls[c]? = some x ∧ x.id = id

inductive CallStep (p p' : ParentCalls) (c : Nat) : CallEvent → PendingCall → PendingCall → Prop
  | other {e x} (he : own c e = false) (ht : p'.Tabled c x → p.Tabled c x) (hh : p'.Held c → p.Held c) :
      CallStep p p' c e x x
  | register {id v n} (hh : p'.Held c → p.Held c) :
      CallStep p p' c (.register c) ⟨id, .registering, v, n⟩ ⟨id, .sending, v, n⟩
  | send {ok id v n} (ht : p'.Tabled c ⟨id, .sending, v, n⟩ → p.Tabled c ⟨id, .sending, v, n⟩)
      (hh : p'.Held c → p.Held c) :
      CallStep p p' c (.send c ok) ⟨id, .sending, v, n⟩ ⟨id, if ok then .waiting else .sendFailed, v, n⟩
  | eraseUnsent {id v n} (ht : p'.pending id ≠ some c) (hh : p'.Held c → p.Held c) :
      CallStep p p' c (.eraseUnsent c) ⟨id, .sendFailed, v, n⟩ ⟨id, .done .sendFailure, v, n⟩
  | get {id v n} (ht : p'.pending id = some c → p.pending id = some c) (hh : p'.Held c → p.Held c) :
      CallStep p p' c (.wait c true) ⟨id, .waiting, some v, n⟩ ⟨id, .done (.settled v), some v, n⟩
  | expire {id n} (ht : p'.pending id = some c → p.pending id = some c) (hh : p'.Held c → p.Held c) :
      CallStep p p' c (.wait c false) ⟨id, .waiting, none, n⟩ ⟨id, .timedOut, none, n⟩
  | eraseExpired {id v n} (ht : p'.pending id ≠ some c) (hh : p'.Held c → p.Held c) :
      CallStep p p' c (.eraseExpired c) ⟨id, .timedOut, v, n⟩ ⟨id, .done .timeout, v, n⟩
  | taken {result x} (ht : p.Tabled c x) (ht' : ¬p'.Tabled c x) : CallStep p p' c (.response x.id result) x x
  | settle {id result x} (hold : p.hold = some (c, id, result)) (ht : p'.Tabled c x → p.Tabled c x) (hh : ¬p'.Held c) :
      CallStep p p' c .setPromise x (x.settle (.response id result))
  | swept {x} (ht : p.Tabled c x) (ht' : ¬p'.Tabled c x) (hh : ¬p'.Held c) :
      CallStep p p' c .disconnect x (x.settle .disconnected)

variable {p p' : ParentCalls} {e : CallEvent} {es : List CallEvent} {c : Nat} {x x' : PendingCall}

theorem insert_some {pending : Int → Option Nat} {id i c d} (hne : c ≠ d)
    (h : insert pending id (some d) i = some c) : pending i = some c := by
  unfold insert at h
  split at h
  · exact absurd (some.inj h) hne.symm
  · exact h

theorem insert_none {pending : Int → Option Nat} {id i} (h : insert pending id none i = some c) :
    i ≠ id ∧ pending i = some c := by
  unfold insert at h
  split at h
  · cases h
  · exact ⟨‹_›, h⟩

/-- A thread that makes a call changes that call and leaves the others alone. -/
private theorem callStep_set {d : Nat} {y y' : PendingCall} (hcalls : p'.calls = p.calls.set d y') (hhold : p'.hold = p.hold)
    (he : own c e = (c == d)) (hy : p.calls[d]? = some y) (hx : p.calls[c]? = some x)
    (hoth : c ≠ d → p'.Tabled c x → p.Tabled c x) (hown : c = d → (p'.Held c → p.Held c) → CallStep p p' c e y y') :
    ∃ x', p'.calls[c]? = some x' ∧ CallStep p p' c e x x' := by
  have hlt := lt_of_getElem? hx
  have hheld : p'.Held c → p.Held c := fun hh => by rwa [Held, hhold] at hh
  rw [hcalls]
  by_cases hcd : c = d
  · subst hcd
    cases hx.symm.trans hy
    exact ⟨y', List.getElem?_set_self hlt, hown rfl hheld⟩
  · exact ⟨x, by rw [List.getElem?_set_ne (Ne.symm hcd), hx], .other (by simp [he, hcd]) (hoth hcd) hheld⟩

theorem exec_call (htab : p.TableOk) (h : p.exec e = some p') (hx : p.calls[c]? = some x) :
    ∃ x', p'.calls[c]? = some x' ∧ CallStep p p' c e x x' := by
  have hlt := lt_of_getElem? hx
  cases e with
  | fetchId =>
    cases h
    exact ⟨x, by rw [List.getElem?_append_left hlt, hx], .other rfl id id⟩
  | register d =>
    simp only [exec] at h
    split at h <;> cases h
    next hy =>
    refine callStep_set rfl rfl rfl hy hx insert_some ?_
    rintro rfl hh
    exact .register hh
  | send d ok =>
    simp only [exec] at h
    split at h <;> cases h
    next hy =>
    refine callStep_set rfl rfl rfl hy hx (fun _ => id) ?_
    rintro rfl hh
    exact .send id hh
  | eraseUnsent d =>
    simp only [exec] at h
    split at h <;> cases h
    next hy =>
    refine callStep_set rfl rfl rfl hy hx (fun _ ht => (insert_none ht).2) ?_
    rintro rfl hh
    exact .eraseUnsent (fun ht => (insert_none ht).1 rfl) hh
  | wait d ready =>
    simp only [exec] at h
    split at h <;> cases h
    · next hy =>
      refine callStep_set rfl rfl rfl hy hx (fun _ => id) ?_
      rintro rfl hh
      exact .get id hh
    · next hy =>
      refine callStep_set rfl rfl rfl hy hx (fun _ => id) ?_
      rintro rfl hh
      exact .expire id hh
  | eraseExpired d =>
    simp only [exec] at h
    split at h <;> cases h
    next hy =>
    refine callStep_set rfl rfl rfl hy hx (fun _ ht => (insert_none ht).2) ?_
    rintro rfl hh
    exact .eraseExpired (fun ht => (insert_none ht).1 rfl) hh
  | response i result =>
    simp only [exec] at h
    split at h <;> cases h
    refine ⟨x, hx, ?_⟩
    by_cases ht : p.pending i = some c
    · -- the table is keyed by the numbers of the calls, so the entry found is the one of this call
      obtain ⟨y, hy, rfl⟩ := htab ht
      cases hx.symm.trans hy
      exact .taken ht fun ht' => (insert_none ht').1 rfl
    · refine .other rfl (fun ht' => (insert_none ht').2) ?_
      rintro ⟨j, r, hh⟩
      obtain ⟨d, hd, he⟩ := map_eq_some_iff.1 hh
      cases he
      exact absurd hd ht
  | setPromise =>
    simp only [exec] at h
    split at h <;> cases h
    next d i result hhold =>
    by_cases hcd : c = d
    · subst hcd
      refine ⟨_, by rw [List.getElem?_modify_eq, hx]; rfl, .settle hhold id ?_⟩
      rintro ⟨j, r, hh⟩
      cases hh
    · refine ⟨x, (List.getElem?_modify_ne _ _ (Ne.symm hcd)).trans hx, .other rfl id ?_⟩
      rintro ⟨j, r, hh⟩
      cases hh
  | disconnect =>
    simp only [exec] at h
    split at h <;> cases h
    next hr =>
    by_cases ht : p.pending x.id = some c
    · refine ⟨x.settle .disconnected, by rw [List.getElem?_mapIdx, hx]; simp [ht], .swept ht ?_ ?_⟩
      · intro ht'
        cases ht'
      · rintro ⟨j, r, hh⟩
        simp only at hh
        simp [hh] at hr
    · refine ⟨x, by rw [List.getElem?_mapIdx, hx]; simp [ht], .other rfl ?_ id⟩
      intro ht'
      cases ht'

theorem CallStep.id_eq (h : CallStep p p' c e x x') : x'.id = x.id := by
  cases h <;> rfl

theorem completes_own (h : completes c e = true) : own c e = true := by
  cases e <;> simp_all [completes, own]

theorem exec_own (h : p.exec e = some p') (ho : own c e = true) : ∃ x, p.calls[c]? = some x := by
  cases e <;> simp only [own, beq_iff_eq, Bool.false_eq_true] at ho <;> subst ho <;> simp only [exec] at h <;>
    split at h <;> first | exact ⟨_, ‹_›⟩ | cases h

theorem exec_calls (h : p.exec e = some p') :
    (p'.calls.length = p.calls.length ∧ p'.nextId = p.nextId ∧ e ≠ .fetchId) ∨
      (e = .fetchId ∧ p'.calls = p.calls ++ [⟨p.nextId, .registering, none, 0⟩] ∧ p'.nextId = int32 (p.nextId + 1) ∧
        p'.pending = p.pending ∧ p'.hold = p.hold) := by
  cases e with
  | fetchId =>
    cases h
    exact .inr ⟨rfl, rfl, rfl, rfl, rfl⟩
  | _ =>
    left
    simp only [exec] at h
    split at h <;> cases h <;> simp

theorem exec_pending {i} (h : p.exec e = some p') (hc : p'.pending i = some c) :
    p.pending i = some c ∨ ∃ x, p.calls[c]? = some x ∧ x.id = i := by
  cases e with
  | register d =>
    simp only [exec] at h
    split at h <;> cases h
    next id v n hd =>
    by_cases hcd : c = d
    · subst hcd
      by_cases hi : i = id
      · exact .inr ⟨_, hd, hi.symm⟩
      · exact .inl (by simpa [insert, hi] using hc)
    · exact .inl (insert_some hcd hc)
  | disconnect =>
    simp only [exec] at h
    split at h <;> cases h
    cases hc
  | fetchId =>
    cases h
    exact .inl hc
  | _ =>
    simp only [exec] at h
    split at h <;> cases h <;> first | exact .inl hc | exact .inl (insert_none hc).2

theorem exec_hold {i result} (h : p.exec e = some p') (hc : p'.hold = some (c, i, result)) :
    p.hold = some (c, i, result) ∨ (e = .response i result ∧ p.pending i = some c) := by
  cases e with
  | response j r =>
    simp only [exec] at h
    split at h <;> cases h
    obtain ⟨d, hd, he⟩ := map_eq_some_iff.1 hc
    cases he
    exact .inr ⟨rfl, hd⟩
  | fetchId =>
    cases h
    exact .inl hc
  | _ =>
    simp only [exec] at h
    split at h <;> cases h <;> first | exact .inl hc | cases hc

/-! ### The invariant -/

structure CallInv (es : List CallEvent) (p : ParentCalls) (c : Nat) (x : PendingCall) : Prop where
  id_eq : x.id = int32 (c + 1)
  unset : p.Tabled c x ∨ p.Held c → x.promise = none
  apart : p.Tabled c x → ¬p.Held c
  early : x.phase = .registering → ¬p.Tabled c x ∧ ¬p.Held c ∧ x.promise = none
  sets_eq : x.sets = if x.promise.isSome then 1 else 0
  promise_from : ∀ v, x.promise = some v → v.From es x.id
  phase_from : x.phase.From es c x.id
  erased : x.phase.isDone = true → ¬p.Tabled c x
  count : es.countP (completes c) = if x.phase.isDone then 1 else 0

theorem CallInv.step (hx : CallInv es p c x) (hold : ∀ {id result}, p.hold = some (c, id, result) →
    id = x.id ∧ .response id result ∈ es) (h : CallStep p p' c e x x') : CallInv (es ++ [e]) p' c x' := by
  have hsub : es ⊆ es ++ [e] := subset_append_left es [e]
  have hfrom := fun v hv => (hx.promise_from v hv).mono hsub
  have hphase := hx.phase_from.mono hsub
  have hlast : e ∈ es ++ [e] := by simp
  have hcnt : (es ++ [e]).countP (completes c) =
      (if x.phase.isDone then 1 else 0) + if completes c e then 1 else 0 := by
    rw [countP_append, countP_singleton, hx.count]
  cases h with
  | other he ht hh =>
    have hce : completes c e = false := by
      by_contra hne
      rw [completes_own (by simpa using hne)] at he
      cases he
    refine ⟨hx.id_eq, ?_, ?_, ?_, hx.sets_eq, hfrom, hphase, ?_, ?_⟩
    · exact fun h => hx.unset (h.imp ht hh)
    · exact fun h h' => hx.apart (ht h) (hh h')
    · exact fun h => ⟨fun h' => (hx.early h).1 (ht h'), fun h' => (hx.early h).2.1 (hh h'), (hx.early h).2.2⟩
    · exact fun h h' => hx.erased h (ht h')
    · simp [hcnt, hce]
  | register hh =>
    obtain ⟨-, hnh, hnone⟩ := hx.early rfl
    refine ⟨hx.id_eq, fun _ => hnone, fun _ h => hnh (hh h), nofun, hx.sets_eq, hfrom, trivial, nofun, ?_⟩
    simp [hcnt, completes, Phase.isDone]
  | @send ok id v n ht hh =>
    refine ⟨hx.id_eq, fun h => hx.unset (h.imp ht hh), fun h h' => hx.apart (ht h) (hh h'), ?_, hx.sets_eq, hfrom, ?_, ?_, ?_⟩
    · cases ok <;> nofun
    · cases ok with
      | true => trivial
      | false => exact hlast
    · cases ok <;> nofun
    · cases ok <;> simp [hcnt, completes, Phase.isDone]
  | eraseUnsent ht hh | eraseExpired ht hh =>
    refine ⟨hx.id_eq, ?_, fun h => absurd h ht, nofun, hx.sets_eq, hfrom, hphase, fun _ => ht, ?_⟩
    · exact fun h => h.elim (fun h => absurd h ht) fun h => hx.unset (.inr (hh h))
    · simp [hcnt, completes, Phase.isDone]
  | @get id v n ht hh =>
    -- the promise is set, so the entry is not in the table any more
    have hnt : p.pending id ≠ some c := fun h => by cases hx.unset (.inl h)
    refine ⟨hx.id_eq, fun h => hx.unset (h.imp ht hh), fun h => absurd (ht h) hnt, nofun, hx.sets_eq, hfrom, hfrom v rfl,
      fun _ h => hnt (ht h), ?_⟩
    simp [hcnt, completes, Phase.isDone]
  | expire ht hh =>
    refine ⟨hx.id_eq, fun _ => rfl, fun h h' => hx.apart (ht h) (hh h'), nofun, hx.sets_eq, hfrom, hlast, nofun, ?_⟩
    simp [hcnt, completes, Phase.isDone]
  | taken ht ht' =>
    refine ⟨hx.id_eq, fun _ => hx.unset (.inl ht), fun h => absurd h ht', ?_, hx.sets_eq, hfrom, hphase,
      fun _ => ht', ?_⟩
    · exact fun h => absurd ht (hx.early h).1
    · simp [hcnt, completes]
  | @settle id result _ hhold ht hh =>
    have hheld : p.Held c := ⟨id, result, hhold⟩
    have hnone := hx.unset (.inr hheld)
    have hnt : ¬p'.Tabled c x := fun h => hx.apart (ht h) hheld
    refine ⟨hx.id_eq, fun h => (h.elim hnt hh).elim, fun h => absurd h hnt, fun h => absurd hheld (hx.early h).2.1, ?_, ?_,
      hphase, fun _ => hnt, ?_⟩
    · simp [PendingCall.settle, hx.sets_eq, hnone]
    · rintro v hv
      simp only [PendingCall.settle, hnone, getD_none, some.injEq] at hv
      subst hv
      exact ⟨(hold hhold).1, hsub (hold hhold).2⟩
    · exact hcnt
  | swept ht ht' hh =>
    have hnone := hx.unset (.inl ht)
    refine ⟨hx.id_eq, fun h => (h.elim ht' hh).elim, fun h => absurd h ht', fun h => absurd ht (hx.early h).1, ?_, ?_,
      hphase, fun _ => ht', ?_⟩
    · simp [PendingCall.settle, hx.sets_eq, hnone]
    · rintro v hv
      simp only [PendingCall.settle, hnone, getD_none, some.injEq] at hv
      subst hv
      exact hlast
    · exact hcnt

structure Inv (es : List CallEvent) (p : ParentCalls) : Prop where
  next : p.nextId = int32 (p.calls.length + 1)
  table : p.TableOk
  hold : ∀ {c id result}, p.hold = some (c, id, result) →
    (∃ x, p.calls[c]? = some x ∧ x.id = id) ∧ .response id result ∈ es
  calls : ∀ {c x}, p.calls[c]? = some x → CallInv es p c x
  fresh : ∀ {c}, p.calls.length ≤ c → es.countP (completes c) = 0

theorem int32_succ (n : Int) : int32 (int32 n + 1) = int32 (n + 1) := by
  simp only [int32, Int.bmod_add_bmod]

theorem Inv.entered (h : Inv es p) : CallInv (es ++ [.fetchId])
    { p with nextId := int32 (p.nextId + 1), calls := p.calls ++ [⟨p.nextId, .registering, none, 0⟩] }
    p.calls.length ⟨p.nextId, .registering, none, 0⟩ := by
  have hlen : ¬∃ x, p.calls[p.calls.length]? = some x := by simp
  have ht : p.pending p.nextId ≠ some p.calls.length := by
    intro ht
    obtain ⟨x, hx, -⟩ := h.table ht
    exact hlen ⟨x, hx⟩
  have hh : ∀ {id result}, p.hold ≠ some (p.calls.length, id, result) := by
    intro id result hh
    obtain ⟨⟨x, hx, -⟩, -⟩ := h.hold hh
    exact hlen ⟨x, hx⟩
  have hheld : ¬∃ id result, p.hold = some (p.calls.length, id, result) := fun ⟨_, _, hc⟩ => hh hc
  refine ⟨h.next, fun _ => rfl, fun ht' => absurd ht' ht, fun _ => ⟨ht, hheld, rfl⟩, rfl, nofun, trivial, nofun, ?_⟩
  rw [countP_append, h.fresh (Nat.le_refl _)]
  rfl

theorem Inv.step (h : Inv es p) (he : p.exec e = some p') : Inv (es ++ [e]) p' := by
  have hcall : ∀ {c x}, p.calls[c]? = some x → ∃ x', p'.calls[c]? = some x' ∧ x'.id = x.id ∧
      CallInv (es ++ [e]) p' c x' := by
    intro c x hx
    obtain ⟨x', hx', hs⟩ := exec_call h.table he hx
    refine ⟨x', hx', hs.id_eq, (h.calls hx).step ?_ hs⟩
    intro id result hh
    obtain ⟨⟨y, hy, hid⟩, hmem⟩ := h.hold hh
    cases hx.symm.trans hy
    exact ⟨hid.symm, hmem⟩
  have hkept : ∀ {c : Nat} {i}, (∃ x, p.calls[c]? = some x ∧ x.id = i) → ∃ x, p'.calls[c]? = some x ∧ x.id = i := by
    rintro c i ⟨x, hx, rfl⟩
    obtain ⟨x', hx', hid, -⟩ := hcall hx
    exact ⟨x', hx', hid⟩
  constructor
  · rcases exec_calls he with ⟨hl, hn, -⟩ | ⟨-, hl, hn, -⟩
    · rw [hn, hl, h.next]
    · rw [hn, hl, h.next, int32_succ]
      simp
  · intro id c hc
    rcases exec_pending he hc with hc | hx
    · exact hkept (h.table hc)
    · exact hkept hx
  · intro c id result hc
    rcases exec_hold he hc with hc | ⟨rfl, hc⟩
    · exact ⟨hkept (h.hold hc).1, mem_append_left _ (h.hold hc).2⟩
    · exact ⟨hkept (h.table hc), by simp⟩
  · intro c x' hx'
    by_cases hc : c < p.calls.length
    · obtain ⟨y, hy, -, hinv⟩ := hcall (getElem?_eq_getElem hc)
      cases hx'.symm.trans hy
      exact hinv
    · -- the step entered the call
      rcases exec_calls he with ⟨hl, -⟩ | ⟨rfl, -⟩
      · exact absurd (hl ▸ lt_of_getElem? hx') hc
      · cases he
        rcases getElem?_arrive hx' with hx' | ⟨rfl, rfl⟩
        · exact absurd (lt_of_getElem? hx') hc
        · exact h.entered
  · intro c hc
    have hle : p.calls.length ≤ p'.calls.length := by
      rcases exec_calls he with ⟨hl, -⟩ | ⟨-, hl, -⟩ <;> simp [hl]
    have hno : completes c e = false := by
      by_contra hne
      obtain ⟨x, hx⟩ := exec_own he (completes_own (by simpa using hne))
      have := lt_of_getElem? hx
      omega
    rw [countP_append, countP_singleton, h.fresh (by omega), hno]
    rfl

theorem start_inv : Inv [] start := by
  refine ⟨?_, nofun, nofun, ?_, fun _ => rfl⟩
  · simp [start, int32, Int.bmod]
  · intro c x hx
    simp [start] at hx

theorem run_inv (h : run exec start es = some p) : Inv es p :=
  run_induction (P := Inv) start_inv (fun _ hi he => hi.step he) h

/-! ### A call completes -/

def rank (c : Nat) (p : ParentCalls) : Nat :=
  match p.calls[c]? with
  | some x => x.phase.rank
  | none => 4

theorem CallStep.rank_le (h : CallStep p p' c e x x') : x'.phase.rank + (if own c e then 1 else 0) ≤ x.phase.rank := by
  cases h with
  | other he => simp [he]
  | @send ok => cases ok <;> simp [own, Phase.rank]
  | register | eraseUnsent | get | expire | eraseExpired => simp [own, Phase.rank]
  | taken | settle | swept => exact Nat.le_refl _

theorem countP_own_le (h : run exec start es = some p) (c : Nat) : es.countP (own c) ≤ 4 := by
  have hrank : p.rank c + es.countP (own c) ≤ start.rank c := by
    refine run_rank ?_ h
    intro fs t e t' hrun he
    cases hx : t.calls[c]? with
    | some x =>
      obtain ⟨x', hx', hs⟩ := exec_call (run_inv hrun).table he hx
      simpa [rank, hx, hx'] using hs.rank_le
    | none =>
      have hno : own c e = false := by
        by_contra hne
        obtain ⟨x, hx'⟩ := exec_own he (by simpa using hne)
        cases hx.symm.trans hx'
      have hle : t'.rank c ≤ 4 := by
        unfold rank
        split
        · exact Phase.rank_le _
        · exact Nat.le_refl _
      simpa [rank, hx, hno] using hle
  have hstr : start.rank c = 4 := rfl
  omega

theorem exists_own (hx : p.calls[c]? = some x) (hd : x.phase.isDone = false) :
    ∃ e, own c e = true ∧ (p.exec e).isSome := by
  obtain ⟨id, phase, promise, sets⟩ := x
  cases phase with
  | registering => exact ⟨.register c, by simp [own], by simp [exec, hx]⟩
  | sending => exact ⟨.send c true, by simp [own], by simp [exec, hx]⟩
  | sendFailed => exact ⟨.eraseUnsent c, by simp [own], by simp [exec, hx]⟩
  | waiting =>
    cases promise with
    | some v => exact ⟨.wait c true, by simp [own], by simp [exec, hx]⟩
    | none => exact ⟨.wait c false, by simp [own], by simp [exec, hx]⟩
  | timedOut => exact ⟨.eraseExpired c, by simp [own], by simp [exec, hx]⟩
  | done outcome => cases hd

theorem int32_of_lt {n : Nat} (h : n < 2 ^ 31) : int32 n = n := by
  unfold int32
  rw [Int.bmod_eq_of_le] <;> omega

/-- The calls of a run with fewer than `2 ^ 31` calls.  The numbers of the calls are different.  No promise is set twice.  A
call completes at most once, then its entry is not in the table, and its outcome is from a response with its number, from
the end of the reader, or its own failure or timeout.  A call that has not completed can take a step, and it takes at most
four. -/
theorem call_matching (h : run exec start es = some p) (hlt : p.calls.length < 2 ^ 31) {c : Nat} {x : PendingCall}
    (hx : p.calls[c]? = some x) :
    x.id = c + 1 ∧ x.sets ≤ 1 ∧ es.countP (completes c) = (if x.phase.isDone then 1 else 0) ∧
      (∀ outcome, x.phase = .done outcome → outcome.From es c x.id ∧ ∀ id, p.pending id ≠ some c) ∧
      (x.phase.isDone = false → ∃ e, own c e = true ∧ (p.exec e).isSome) ∧ es.countP (own c) ≤ 4 := by
  have hinv := run_inv h
  have hc := hinv.calls hx
  refine ⟨?_, ?_, hc.count, ?_, exists_own hx, countP_own_le h c⟩
  · have hlen := lt_of_getElem? hx
    rw [hc.id_eq]
    exact int32_of_lt (n := c + 1) (by omega)
  · rw [hc.sets_eq]
    split <;> omega
  · intro outcome hd
    refine ⟨?_, ?_⟩
    · have := hc.phase_from
      rwa [hd] at this
    · intro id hp
      obtain ⟨y, hy, rfl⟩ := hinv.table hp
      cases hx.symm.trans hy
      exact hc.erased (by rw [hd]; rfl) hp

def answeredTwice : List CallEvent :=
  [.fetchId, .register 0, .send 0 true, .response 1 (.ok .null), .setPromise, .response 1 (.ok (.bool true)), .wait 0 true]

theorem call_matching_answeredTwice : ∃ p x, run exec start answeredTwice = some p ∧ p.calls[0]? = some x ∧
    x.phase = .done (.settled (.response 1 (.ok .null))) ∧ x.sets ≤ 1 ∧ p.pending 1 ≠ some 0 := by
  refine ⟨_, _, rfl, rfl, rfl, ?_⟩
  have h := @call_matching _ answeredTwice rfl (by decide) 0 _ rfl
  exact ⟨h.2.1, (h.2.2.2.1 _ rfl).2 1⟩

end ParentCalls

end CloudeLoader.Ipc
