import CloudeLoader.Lib.Transition

/-!
# Nested calls between the frontend and the backends

A function of the frontend calls backends, a function of a backend calls the frontend, and so on.
-/

namespace CloudeLoader.NestedCalls

open Transition List Option Nat

/-- Where the function of a call is: in the backend of a plugin, or in the frontend. -/
inductive Callee
  | backend (plugin : String)
  | frontend

def Callee.isBackend : Callee → Bool
  | .backend _ => true
  | .frontend => false

structure CallNode where
  parent : Option Nat
  callee : Callee

/-- A finite tree of calls.  The first one is the root, whose function is started from outside. -/
structure CallTree where
  nodes : List CallNode
  root : ∀ {i : Nat} {n : CallNode}, nodes[i]? = some n → (n.parent = none ↔ i = 0)
  ordered : ∀ {i j : Nat} {n : CallNode}, nodes[i]? = some n → n.parent = some j → j < i
  alternates : ∀ {i j : Nat} {n m : CallNode}, nodes[i]? = some n → n.parent = some j → nodes[j]? = some m →
    n.callee.isBackend = !m.callee.isBackend

inductive Phase
  | idle
  | queued
  | locking
  | sent
  | dropped
  | executing
  | answered
  | replying
  | requested
  | evaluating
  | resolved
  | running
  | returned
  deriving DecidableEq

namespace Phase

def inBody : Phase → Bool
  | .executing => true
  | .evaluating => true
  | .running => true
  | _ => false

def early : Phase → Bool
  | .idle => true
  | .queued => true
  | .locking => true
  | .sent => true
  | .dropped => true
  | .requested => true
  | _ => false

/-- `evaluate` is in `PluginProcess::call`, under the mutex. -/
def holdsMutex : Phase → Bool
  | .sent => true
  | .dropped => true
  | .executing => true
  | .answered => true
  | _ => false

def onWorker : Phase → Bool
  | .locking => true
  | .replying => true
  | p => p.holdsMutex

/-- The child waits for the call in `rpc_client::call`. -/
def inCall : Phase → Bool
  | .requested => true
  | .evaluating => true
  | .resolved => true
  | _ => false

def ofBackend : Phase → Bool
  | .requested => false
  | .evaluating => false
  | .resolved => false
  | .running => false
  | _ => true

def ofFrontend : Phase → Bool
  | .idle => true
  | .returned => true
  | p => p.inCall

def late (p : Phase) : Bool := !p.early && !p.inBody

def rank : Phase → Nat
  | .idle => 8
  | .queued => 7
  | .locking => 6
  | .sent => 5
  | .dropped => 4
  | .executing => 4
  | .answered => 3
  | .replying => 2
  | .requested => 3
  | .evaluating => 2
  | .resolved => 1
  | .running => 1
  | .returned => 0

variable {p : Phase}

theorem not_early_of_inBody (h : p.inBody = true) : p.early = false ∧ p.late = false := by
  revert h
  cases p <;> decide

theorem eq_executing (h : p.inBody = true) (hp : p.ofBackend = true) : p = .executing := by
  revert h hp
  cases p <;> decide

theorem not_onWorker_of_frontend (h : p.ofFrontend = true) : p.onWorker = false ∧ p.holdsMutex = false := by
  revert h
  cases p <;> decide

theorem eq_evaluating (h : p.inBody = true) (hp : p.ofFrontend = true) : p = .evaluating := by
  revert h hp
  cases p <;> decide

end Phase

structure CallState where
  phase : Nat → Phase
  tasks : List Nat

namespace CallTree

def parent? (T : CallTree) (i : Nat) : Option Nat := (T.nodes[i]?).bind (·.parent)

def plugin? (T : CallTree) (i : Nat) : Option String :=
  match T.nodes[i]? with
  | some ⟨_, .backend plugin⟩ => some plugin
  | _ => none

def size (T : CallTree) : Nat := T.nodes.length

end CallTree

namespace CallState

variable (T : CallTree) (s : CallState)

def start : CallState := ⟨fun i => if i = 0 then .running else .idle, []⟩

def set (i : Nat) (p : Phase) : CallState := { s with phase := Function.update s.phase i p }

/-! ### What the steps test -/

def allReturned (i : Nat) : Bool := (range T.size).all fun j => T.parent? j = some i → s.phase j = .returned

def earlierReturned (i j : Nat) : Bool := (range j).all fun k => T.parent? k = some i → s.phase k = .returned

def workers : Nat := (range T.size).countP fun i => (s.phase i).onWorker

def mutexFree : Bool := (range T.size).all fun i => !(s.phase i).holdsMutex

def anyCall (phases : Phase → Bool) (plugin : String) : Bool :=
  (range T.size).any fun i => phases (s.phase i) && ((T.parent? i).bind T.plugin? = some plugin)

def childInCall (plugin : String) : Bool := s.anyCall T Phase.inCall plugin

/-- The reader thread of the plugin's process is in the handler of a request. -/
def readerBusy (plugin : String) : Bool := s.anyCall T (· = .evaluating) plugin

def childBusy (plugin : String) : Bool :=
  (range T.size).any fun i => (s.phase i).inBody && (T.plugin? i = some plugin)

/-! ### Steps -/

def backendStep (i : Nat) (parent : Option Nat) (plugin : String) : Option CallState :=
  match s.phase i with
  | .idle => if parent.any fun j => (s.phase j).inBody then some { s.set i .queued with tasks := s.tasks ++ [i] } else none
  | .queued =>
    if s.tasks.head? = some i ∧ s.workers T < 4 then some { s.set i .locking with tasks := s.tasks.tail } else none
  | .locking => if s.mutexFree T then some (s.set i .sent) else none
  | .sent =>
    if s.childInCall T plugin then some (s.set i .dropped)
    else if s.childBusy T plugin then none
    else some (s.set i .executing)
  | .executing => if s.allReturned T i then some (s.set i .answered) else none
  | .answered => if s.readerBusy T plugin then none else some (s.set i .replying)
  | .replying => some (s.set i .returned)
  | .running => if s.allReturned T i then some (s.set i .returned) else none
  | _ => none

def frontendStep (i : Nat) (parent : Option Nat) : Option CallState :=
  match s.phase i with
  | .idle =>
    if parent.any fun j => (s.phase j).inBody && s.earlierReturned T j i then some (s.set i .requested) else none
  | .requested =>
    match parent.bind T.plugin? with
    | some plugin => if s.readerBusy T plugin then none else some (s.set i .evaluating)
    | none => none
  | .evaluating => if s.allReturned T i then some (s.set i .resolved) else none
  | .resolved => some (s.set i .returned)
  | .running => if s.allReturned T i then some (s.set i .returned) else none
  | _ => none

def step (i : Nat) : Option CallState :=
  match T.nodes[i]? with
  | some ⟨parent, .backend plugin⟩ => s.backendStep T i parent plugin
  | some ⟨parent, .frontend⟩ => s.frontendStep T i parent
  | none => none

/-! ### The steps as moves from one phase to the next -/

inductive Move (T : CallTree) (s : CallState) (i : Nat) : Phase → Phase → Prop
  | queue {j plugin} (hi : T.plugin? i = some plugin) (hp : T.parent? i = some j) (hj : (s.phase j).inBody = true) :
      Move T s i .idle .queued
  | begin (hhead : s.tasks.head? = some i) (hw : s.workers T < 4) : Move T s i .queued .locking
  | lock (hfree : s.mutexFree T = true) : Move T s i .locking .sent
  | drop {plugin} (hi : T.plugin? i = some plugin) (hin : s.childInCall T plugin = true) : Move T s i .sent .dropped
  | execute {plugin} (hi : T.plugin? i = some plugin) (hin : s.childInCall T plugin = false)
      (hbusy : s.childBusy T plugin = false) : Move T s i .sent .executing
  | answer (hall : s.allReturned T i = true) : Move T s i .executing .answered
  | reply {plugin} (hi : T.plugin? i = some plugin) (hreader : s.readerBusy T plugin = false) :
      Move T s i .answered .replying
  | respond : Move T s i .replying .returned
  | request {j} (hi : T.plugin? i = none) (hp : T.parent? i = some j) (hj : (s.phase j).inBody = true)
      (hprev : s.earlierReturned T j i = true) : Move T s i .idle .requested
  | evaluate {plugin} (hp : (T.parent? i).bind T.plugin? = some plugin) (hreader : s.readerBusy T plugin = false) :
      Move T s i .requested .evaluating
  | resolve (hall : s.allReturned T i = true) : Move T s i .evaluating .resolved
  | read : Move T s i .resolved .returned
  | finish (hall : s.allReturned T i = true) : Move T s i .running .returned

def nextTasks (s : CallState) (i : Nat) : Phase → List Nat
  | .queued => s.tasks ++ [i]
  | .locking => s.tasks.tail
  | _ => s.tasks

variable {T : CallTree} {s s' : CallState} {i j : Nat} {p q : Phase} {plugin : String}

structure Moved (s s' : CallState) (i : Nat) (p : Phase) : Prop where
  phase : ∀ k, s'.phase k = if k = i then p else s.phase k
  tasks : s'.tasks = s.nextTasks i p

theorem step_move (h : step T s i = some s') : i < T.size ∧ ∃ p, Move T s i (s.phase i) p ∧ Moved s s' i p := by
  have hmov : ∀ p, Moved s ⟨Function.update s.phase i p, s.nextTasks i p⟩ i p :=
    fun p => ⟨fun k => Function.update_apply .., rfl⟩
  unfold step at h
  split at h
  · next parent plugin hn =>
    have hi : T.plugin? i = some plugin := by simp [CallTree.plugin?, hn]
    have hp : T.parent? i = parent := by simp [CallTree.parent?, hn]
    refine ⟨(lt_of_getElem? hn), ?_⟩
    unfold backendStep at h
    generalize s.phase i = q at h ⊢
    split at h
    · split at h <;> cases h
      next hj =>
      cases parent with
      | none => cases hj
      | some j => exact ⟨_, .queue hi hp hj, hmov _⟩
    · split at h <;> cases h
      next hq => exact ⟨_, .begin hq.1 hq.2, hmov _⟩
    · split at h <;> cases h
      next hfree => exact ⟨_, .lock hfree, hmov _⟩
    · split at h
      · next hin =>
        cases h
        exact ⟨_, .drop hi hin, hmov _⟩
      · next hin =>
        split at h <;> cases h
        next hbusy => exact ⟨_, .execute hi (by simpa using hin) (by simpa using hbusy), hmov _⟩
    · split at h <;> cases h
      next hall => exact ⟨_, .answer hall, hmov _⟩
    · split at h <;> cases h
      next hreader => exact ⟨_, .reply hi (by simpa using hreader), hmov _⟩
    · cases h
      exact ⟨_, .respond, hmov _⟩
    · split at h <;> cases h
      next hall => exact ⟨_, .finish hall, hmov _⟩
    · cases h
  · next parent hn =>
    have hi : T.plugin? i = none := by simp [CallTree.plugin?, hn]
    have hp : T.parent? i = parent := by simp [CallTree.parent?, hn]
    refine ⟨(lt_of_getElem? hn), ?_⟩
    unfold frontendStep at h
    generalize s.phase i = q at h ⊢
    split at h
    · split at h <;> cases h
      next hj =>
      cases parent with
      | none => cases hj
      | some j =>
        have hj : ((s.phase j).inBody && s.earlierReturned T j i) = true := hj
        rw [Bool.and_eq_true] at hj
        exact ⟨_, .request hi hp hj.1 hj.2, hmov _⟩
    · split at h
      · next hplg =>
        split at h <;> cases h
        next hreader => exact ⟨_, .evaluate (by rw [hp, hplg]) (by simpa using hreader), hmov _⟩
      · cases h
    · split at h <;> cases h
      next hall => exact ⟨_, .resolve hall, hmov _⟩
    · cases h
      exact ⟨_, .read, hmov _⟩
    · split at h <;> cases h
      next hall => exact ⟨_, .finish hall, hmov _⟩
    · cases h
  · cases h

/-! ### What holds in all states -/

structure Inv (T : CallTree) (s : CallState) : Prop where
  root : s.phase 0 = .running ∨ s.phase 0 = .returned
  backend : ∀ {i plugin}, i ≠ 0 → T.plugin? i = some plugin → (s.phase i).ofBackend = true
  frontend : ∀ {i}, i ≠ 0 → T.plugin? i = none → (s.phase i).ofFrontend = true
  early : ∀ {i j}, T.parent? i = some j → (s.phase j).early = true → s.phase i = .idle
  late : ∀ {i j}, T.parent? i = some j → (s.phase j).late = true → s.phase i = .returned
  mutex : ∀ {i j}, i < T.size → j < T.size → (s.phase i).holdsMutex = true → (s.phase j).holdsMutex = true → i = j
  tasks : ∀ {i}, i ∈ s.tasks ↔ s.phase i = .queued
  nodup : s.tasks.Nodup

theorem lt_size_of_parent (h : T.parent? i = some j) : j < i ∧ i < T.size := by
  obtain ⟨n, hn, hp⟩ := Option.bind_eq_some_iff.1 h
  exact ⟨T.ordered hn hp, (lt_of_getElem? hn)⟩

theorem lt_size_of_plugin (h : T.plugin? i = some plugin) : i < T.size := by
  unfold CallTree.plugin? at h
  split at h
  · next hn => exact (lt_of_getElem? hn)
  · cases h

theorem allReturned_iff : s.allReturned T i = true ↔ ∀ j, T.parent? j = some i → s.phase j = .returned := by
  simp only [allReturned, List.all_eq_true, List.mem_range, decide_eq_true_eq]
  exact ⟨fun h j hj => h j (lt_size_of_parent hj).2 hj, fun h j _ hj => h j hj⟩

theorem mutexFree_iff : s.mutexFree T = true ↔ ∀ i, i < T.size → (s.phase i).holdsMutex = false := by
  simp [mutexFree]

theorem Move.early_of_early (h : Move T s i q p) (hp : p.early = true) : q.early = true := by
  cases h <;> first | rfl | cases hp

theorem Move.late_of_late (h : Move T s i q p) (hp : p.late = true) : q.late = true ∨ s.allReturned T i = true := by
  cases h with
  | answer hall | resolve hall | finish hall => exact .inr hall
  | reply | respond | read => exact .inl rfl
  | queue | begin | lock | drop | execute | request | evaluate => cases hp

theorem Move.holdsMutex (h : Move T s i q p) (hp : p.holdsMutex = true) : q.holdsMutex = true ∨ s.mutexFree T = true := by
  cases h with
  | lock hfree => exact .inr hfree
  | drop | execute | answer => exact .inl rfl
  | queue | begin | reply | respond | request | evaluate | resolve | read | finish => cases hp

theorem Move.parent_inBody (h : Move T s i .idle p) : ∃ j, T.parent? i = some j ∧ (s.phase j).inBody = true := by
  cases h with
  | queue _ hp hj | request _ hp hj => exact ⟨_, hp, hj⟩

theorem Move.ofBackend (h : Move T s i q p) (hi : T.plugin? i = some plugin) (hq : q.ofBackend = true) :
    p.ofBackend = true := by
  cases h with
  | request hn => cases hi.symm.trans hn
  | evaluate | resolve | read | finish => cases hq
  | queue | begin | lock | drop | execute | answer | reply | respond => rfl

theorem Move.ofFrontend (h : Move T s i q p) (hi : T.plugin? i = none) (hq : q.ofFrontend = true) : p.ofFrontend = true := by
  cases h with
  | queue hn => cases hi.symm.trans hn
  | begin | lock | drop | execute | answer | reply | respond | finish => cases hq
  | request | evaluate | resolve | read => rfl

theorem Inv.parent_inBody (h : Inv T s) (hp : T.parent? i = some j) (hidle : s.phase i ≠ .idle)
    (hret : s.phase i ≠ .returned) : (s.phase j).inBody = true := by
  by_contra hbody
  cases herl : (s.phase j).early with
  | true => exact hidle (h.early hp herl)
  | false => exact hret (h.late hp (by simp [Phase.late, herl, hbody]))

theorem Inv.early_step (h : Inv T s) (hmove : Move T s i (s.phase i) p) (hs : Moved s s' i p) {k}
    (hp : T.parent? k = some j) (herl : (s'.phase j).early = true) : s'.phase k = .idle := by
  have hjk := (lt_size_of_parent hp).1
  rw [hs.phase] at herl ⊢
  split at herl
  · next hji =>
    subst hji
    rw [if_neg (by omega)]
    exact h.early hp (hmove.early_of_early herl)
  · have hidle := h.early hp herl
    split
    · next hki =>
      -- call `k` cannot make its first move
      subst hki
      rw [hidle] at hmove
      obtain ⟨j', hp', hbody⟩ := hmove.parent_inBody
      cases hp.symm.trans hp'
      rw [(Phase.not_early_of_inBody hbody).1] at herl
      cases herl
    · exact hidle

theorem Inv.late_step (h : Inv T s) (hmove : Move T s i (s.phase i) p) (hs : Moved s s' i p) {k}
    (hp : T.parent? k = some j) (hlate : (s'.phase j).late = true) : s'.phase k = .returned := by
  have hjk := (lt_size_of_parent hp).1
  rw [hs.phase] at hlate ⊢
  split at hlate
  · next hji =>
    subst hji
    rw [if_neg (by omega)]
    rcases hmove.late_of_late hlate with hlate | hall
    · exact h.late hp hlate
    · exact allReturned_iff.1 hall k hp
  · have hret := h.late hp hlate
    split
    · next hki =>
      subst hki
      rw [hret] at hmove
      cases hmove
    · exact hret

theorem Inv.mutex_step (h : Inv T s) (hlt : i < T.size) (hmove : Move T s i (s.phase i) p) (hs : Moved s s' i p) {k l}
    (hk : k < T.size) (hl : l < T.size) (hpk : (s'.phase k).holdsMutex = true) (hpl : (s'.phase l).holdsMutex = true) :
    k = l := by
  have hone : ∀ {k}, k < T.size → k ≠ i → p.holdsMutex = true → (s.phase k).holdsMutex = true → False := by
    intro k hk hki hp hk'
    rcases hmove.holdsMutex hp with hq | hfree
    · exact hki (h.mutex hk hlt hk' hq)
    · rw [mutexFree_iff.1 hfree k hk] at hk'
      cases hk'
  rw [hs.phase] at hpk hpl
  split at hpk <;> split at hpl
  · next hki hli => rw [hki, hli]
  · next hki hli => exact (hone hl hli hpk hpl).elim
  · next hki hli => exact (hone hk hki hpl hpk).elim
  · exact h.mutex hk hl hpk hpl

theorem Inv.tasks_step (h : Inv T s) (hmove : Move T s i (s.phase i) p) (hs : Moved s s' i p) :
    (∀ {k}, k ∈ s'.tasks ↔ s'.phase k = .queued) ∧ s'.tasks.Nodup := by
  have hoth : s'.tasks = s.tasks → p ≠ .queued → s.phase i ≠ .queued →
      (∀ {k}, k ∈ s'.tasks ↔ s'.phase k = .queued) ∧ s'.tasks.Nodup := by
    intro ht hp hi
    refine ⟨fun {k} => ?_, ht ▸ h.nodup⟩
    rw [ht, h.tasks, hs.phase]
    split
    · next hki => exact iff_of_false (hki ▸ hi) hp
    · exact Iff.rfl
  generalize hq : s.phase i = q at hmove
  have htas := hs.tasks
  cases hmove with
  | queue =>
    have hi : i ∉ s.tasks := by
      rw [h.tasks, hq]
      nofun
    simp only [nextTasks] at htas
    refine ⟨fun {k} => ?_, ?_⟩
    · rw [htas, mem_append, mem_singleton, h.tasks, hs.phase]
      split
      · next hki => exact iff_of_true (.inr hki) rfl
      · next hki => exact or_iff_left hki
    · rw [htas]
      refine nodup_append.2 ⟨h.nodup, by simp, fun a ha b hb => ?_⟩
      rw [mem_singleton.1 hb]
      exact fun hab => hi (hab ▸ ha)
  | begin hhead =>
    obtain ⟨rest, hrest⟩ := head?_eq_some_iff.1 hhead
    have hnod := h.nodup
    rw [hrest, nodup_cons] at hnod
    simp only [nextTasks, hrest, tail_cons] at htas
    refine ⟨fun {k} => ?_, htas ▸ hnod.2⟩
    have hk := h.tasks (i := k)
    rw [hrest, mem_cons] at hk
    rw [htas, hs.phase]
    split
    · next hki => exact iff_of_false (hki ▸ hnod.1) nofun
    · next hki => rw [← hk, or_iff_right hki]
  | lock | drop | execute | answer | reply | respond | request | evaluate | resolve | read | finish =>
    exact hoth htas nofun (by rw [hq]; nofun)

theorem Inv.step (h : Inv T s) (he : step T s i = some s') : Inv T s' := by
  obtain ⟨hlt, p, hmove, hs⟩ := step_move he
  refine ⟨?_, ?_, ?_, h.early_step hmove hs, h.late_step hmove hs, h.mutex_step hlt hmove hs, (h.tasks_step hmove hs).1,
    (h.tasks_step hmove hs).2⟩
  · rw [hs.phase]
    split
    · next h0 =>
      subst h0
      rcases h.root with hr | hr <;> rw [hr] at hmove <;> cases hmove
      exact .inr rfl
    · exact h.root
  · intro k plugin hk hplg
    rw [hs.phase]
    split
    · next hki =>
      subst hki
      exact hmove.ofBackend hplg (h.backend hk hplg)
    · exact h.backend hk hplg
  · intro k hk hplg
    rw [hs.phase]
    split
    · next hki =>
      subst hki
      exact hmove.ofFrontend hplg (h.frontend hk hplg)
    · exact h.frontend hk hplg

theorem start_inv : Inv T start := by
  have hidle : ∀ {i}, i ≠ 0 → start.phase i = .idle := fun hi => if_neg hi
  refine ⟨.inl rfl, fun hi _ => ?_, fun hi _ => ?_, fun hp herl => ?_, fun {_} {j} hp hlate => ?_,
    fun {i} {_} _ _ hi _ => ?_, fun {i} => ?_, .nil⟩
  · rw [hidle hi]
    rfl
  · rw [hidle hi]
    rfl
  · have := (lt_size_of_parent hp).1
    exact hidle (by omega)
  · by_cases hj : j = 0
    · subst hj
      cases hlate
    · rw [hidle hj] at hlate
      cases hlate
  · by_cases hi0 : i = 0
    · subst hi0
      cases hi
    · rw [hidle hi0] at hi
      cases hi
  · by_cases hi0 : i = 0
    · subst hi0
      exact iff_of_false nofun nofun
    · rw [hidle hi0]
      exact iff_of_false nofun nofun

/-! ### The number of steps -/

def rank (T : CallTree) (s : CallState) : Nat := ((range T.size).map fun i => (s.phase i).rank).sum

theorem Move.rank_lt (h : Move T s i q p) : p.rank < q.rank := by
  cases h <;> decide

theorem rank_lt (he : step T s i = some s') : rank T s' < rank T s := by
  obtain ⟨hlt, p, hmove, hs⟩ := step_move he
  refine sum_lt_sum _ _ (fun k _ => ?_) ⟨i, mem_range.2 hlt, ?_⟩
  · rw [hs.phase]
    split
    · next hki => exact hki ▸ le_of_lt hmove.rank_lt
    · exact le_refl _
  · rw [hs.phase, if_pos rfl]
    exact hmove.rank_lt

theorem rank_start_le (T : CallTree) : rank T start ≤ 8 * T.size := by
  have hle : ∀ i, (start.phase i).rank ≤ 8 := by
    intro i
    show (if i = 0 then Phase.running else .idle).rank ≤ 8
    split <;> decide
  have := sum_le_card_nsmul ((range T.size).map fun i => (start.phase i).rank) 8 (by simp [hle])
  simpa [rank, mul_comm] using this

theorem exists_halted : ∃ es s, run (step T) start es = some s ∧ Halted (step T) (fun _ => true) s :=
  exists_run_halted (rank T) (fun _ _ => trivial) (fun _ _ he => rank_lt he) trivial

/-! ### Nesting -/

end CallState

namespace CallTree

inductive Under (T : CallTree) (a : Nat) : Nat → Prop
  | child {b} (h : T.parent? b = some a) : Under T a b
  | step {b c} (h : T.parent? b = some c) (hc : Under T a c) : Under T a b

/-- A call of a backend is made by the function of another backend only if that function is the root of the tree, so that
nobody waits for it, and is in another plugin. -/
def Flat (T : CallTree) : Prop :=
  ∀ a b p q, b ≠ 0 → T.plugin? b = some q → T.plugin? a = some p → T.Under a b → a = 0 ∧ p ≠ q

variable {T : CallTree} {a b : Nat}

theorem Under.exists_child (h : T.Under a b) : T.parent? b = some a ∨ ∃ c, T.parent? c = some a ∧ T.Under c b := by
  induction h with
  | child h => exact .inl h
  | step h hc ih =>
    right
    rcases ih with ih | ⟨d, hd, hdc⟩
    · exact ⟨_, ih, .child h⟩
    · exact ⟨d, hd, .step h hdc⟩

theorem Under.lt (h : T.Under a b) : a < b := by
  induction h with
  | child h => exact (CallState.lt_size_of_parent h).1
  | step h _ ih => exact lt_trans ih (CallState.lt_size_of_parent h).1

theorem under_root (hb : b ≠ 0) (hlt : b < T.size) : T.Under 0 b := by
  induction b using Nat.strongRecOn with
  | ind b ih =>
    obtain ⟨n, hn⟩ : ∃ n, T.nodes[b]? = some n := ⟨_, getElem?_eq_getElem hlt⟩
    cases hp : n.parent with
    | none => exact absurd ((T.root hn).1 hp) hb
    | some c =>
      have hpc : T.parent? b = some c := by simp [parent?, hn, hp]
      have hcb := T.ordered hn hp
      by_cases hc : c = 0
      · subst hc
        exact .child hpc
      · exact .step hpc (ih c hcb hc (lt_trans hcb hlt))

theorem plugin?_isSome_of_parent (hp : T.parent? b = some a) : (T.plugin? b).isSome = !(T.plugin? a).isSome := by
  have hlt := CallState.lt_size_of_parent hp
  obtain ⟨n, hn⟩ : ∃ n, T.nodes[b]? = some n := ⟨_, getElem?_eq_getElem hlt.2⟩
  obtain ⟨m, hm⟩ : ∃ m, T.nodes[a]? = some m := ⟨_, getElem?_eq_getElem (lt_trans hlt.1 hlt.2)⟩
  have hkind : ∀ {i : Nat} {k : CallNode}, T.nodes[i]? = some k → (T.plugin? i).isSome = k.callee.isBackend := by
    rintro i ⟨parent, callee⟩ hk
    cases callee <;> simp [plugin?, hk, Callee.isBackend]
  have hpar : n.parent = some a := by simpa [parent?, hn] using hp
  rw [hkind hn, hkind hm, T.alternates hn hpar hm]

end CallTree

namespace CallState

variable {T : CallTree} {s s' : CallState} {i j : Nat} {p q : Phase} {plugin : String}

theorem Inv.inBody_of_under (h : Inv T s) {a b} (hu : T.Under a b) (hidle : s.phase b ≠ .idle)
    (hret : s.phase b ≠ .returned) : (s.phase a).inBody = true := by
  induction hu with
  | child hp => exact h.parent_inBody hp hidle hret
  | step hp _ ih =>
    have hbody := h.parent_inBody hp hidle hret
    refine ih ?_ ?_
    · rintro hc
      rw [hc] at hbody
      cases hbody
    · rintro hc
      rw [hc] at hbody
      cases hbody

/-! ### Calls that never return -/

theorem Inv.nested_step (h : Inv T s) {a b pa} (ha : a ≠ 0) (hpa : T.plugin? a = some pa) (hu : T.Under a b)
    (hb : s.phase b = .idle ∨ s.phase b = .queued ∨ s.phase b = .locking) (hpb : T.plugin? b = some plugin)
    (he : CallState.step T s i = some s') : s'.phase b = .idle ∨ s'.phase b = .queued ∨ s'.phase b = .locking := by
  obtain ⟨hlt, p, hmove, hs⟩ := step_move he
  rw [hs.phase]
  split
  · next hbi =>
    subst hbi
    generalize hq : s.phase b = q at hmove hb
    cases hmove with
    | queue => exact .inr (.inl rfl)
    | begin => exact .inr (.inr rfl)
    | request hn => cases hpb.symm.trans hn
    | lock hfree =>
      -- the function of `a` is executed
      have hbody := h.inBody_of_under hu (by rw [hq]; nofun) (by rw [hq]; nofun)
      have hkind := h.backend ha hpa
      have hfree' := mutexFree_iff.1 hfree a (lt_size_of_plugin hpa)
      rw [Phase.eq_executing hbody hkind] at hfree'
      cases hfree'
    | drop | execute | answer | reply | respond | evaluate | resolve | read | finish => simp at hb
  · exact hb

theorem anyCall_iff {phases : Phase → Bool} : s.anyCall T phases plugin = true ↔
    ∃ i j, T.parent? i = some j ∧ T.plugin? j = some plugin ∧ phases (s.phase i) = true := by
  simp only [anyCall, List.any_eq_true, List.mem_range, Bool.and_eq_true, decide_eq_true_eq]
  constructor
  · rintro ⟨i, -, hphase, hp⟩
    obtain ⟨j, hj, hplg⟩ := Option.bind_eq_some_iff.1 hp
    exact ⟨i, j, hj, hplg, hphase⟩
  · rintro ⟨i, j, hj, hplg, hphase⟩
    exact ⟨i, (lt_size_of_parent hj).2, hphase, by rw [hj]; exact hplg⟩

theorem Inv.childInCall_root (h : Inv T s) {b} (hroot : T.plugin? 0 = some plugin) (hpb : T.plugin? b = some plugin)
    (hu : T.Under 0 b) (hidle : s.phase b ≠ .idle) (hret : s.phase b ≠ .returned) : s.childInCall T plugin = true := by
  rcases hu.exists_child with hp | ⟨c, hp, hcb⟩
  · -- a backend does not call a backend
    have := CallTree.plugin?_isSome_of_parent hp
    rw [hpb, hroot] at this
    cases this
  · have hbody := h.inBody_of_under hcb hidle hret
    have hnone : T.plugin? c = none := by
      have := CallTree.plugin?_isSome_of_parent hp
      rw [hroot] at this
      exact isNone_iff_eq_none.1 (by simpa using this)
    have hc0 : c ≠ 0 := by
      have := (lt_size_of_parent hp).1
      omega
    refine anyCall_iff.2 ⟨c, 0, hp, hroot, ?_⟩
    rw [Phase.eq_evaluating hbody (h.frontend hc0 hnone)]
    rfl

theorem Inv.own_step (h : Inv T s) {b} (hroot : T.plugin? 0 = some plugin) (hpb : T.plugin? b = some plugin)
    (hu : T.Under 0 b) (hb : (s.phase b).early = true) (he : CallState.step T s i = some s') :
    (s'.phase b).early = true := by
  obtain ⟨hlt, p, hmove, hs⟩ := step_move he
  rw [hs.phase]
  split
  · next hbi =>
    subst hbi
    generalize hq : s.phase b = q at hmove hb
    cases hmove with
    | queue | begin | lock | drop | request => rfl
    | execute hi hin =>
      cases hpb.symm.trans hi
      rw [h.childInCall_root hroot hpb hu (by rw [hq]; nofun) (by rw [hq]; nofun)] at hin
      cases hin
    | evaluate =>
      -- `b` is a call of a backend
      have hkind := h.backend (pos_iff_ne_zero.1 hu.lt) hpb
      rw [hq] at hkind
      cases hkind
    | answer | reply | respond | resolve | read | finish => cases hb
  · exact hb

theorem flat_of_returned (h : ∀ es s, run (step T) start es = some s → Halted (step T) (fun _ => true) s →
    ∀ i, i < T.size → s.phase i = .returned) : T.Flat := by
  intro a b p q hb hq hp hu
  obtain ⟨es, s, hrun, hhalt⟩ := exists_halted
  have hret := h es s hrun hhalt b (lt_size_of_plugin hq)
  have hstr : start.phase b = .idle := if_neg hb
  by_contra hcon
  by_cases ha : a = 0
  · subst ha
    obtain rfl : p = q := by
      by_contra hne
      exact hcon ⟨rfl, hne⟩
    have herl := run_induction (P := fun _ s => Inv T s ∧ (s.phase b).early = true) ⟨start_inv, by rw [hstr]; rfl⟩
      (fun _ ih he => ⟨ih.1.step he, ih.1.own_step hp hq hu ih.2 he⟩) hrun
    rw [hret] at herl
    cases herl.2
  · have hwts := run_induction
      (P := fun _ s => Inv T s ∧ (s.phase b = .idle ∨ s.phase b = .queued ∨ s.phase b = .locking)) ⟨start_inv, .inl hstr⟩
      (fun _ ih he => ⟨ih.1.step he, ih.1.nested_step ha hp hu ih.2 hq he⟩) hrun
    rw [hret] at hwts
    simp at hwts

/-! ### Calls that return -/

theorem Inv.child_free (h : Inv T s) (hflat : T.Flat) (hi0 : i ≠ 0) (hi : T.plugin? i = some plugin)
    (hm : (s.phase i).holdsMutex = true) (hne : s.phase i ≠ .executing) (hj : T.plugin? j = some plugin) :
    (s.phase j).inBody = false := by
  by_contra hbody
  rw [Bool.not_eq_false] at hbody
  by_cases hj0 : j = 0
  · subst hj0
    exact (hflat 0 i plugin plugin hi0 hi hj (CallTree.under_root hi0 (lt_size_of_plugin hi))).2 rfl
  · have hex := Phase.eq_executing hbody (h.backend hj0 hj)
    obtain rfl := h.mutex (lt_size_of_plugin hi) (lt_size_of_plugin hj) hm (by rw [hex]; rfl)
    exact hne hex

theorem Inv.no_call (h : Inv T s) (hbody : ∀ j, T.plugin? j = some plugin → (s.phase j).inBody = false)
    {phases : Phase → Bool} (hphs : ∀ p, phases p = true → p ≠ .idle ∧ p ≠ .returned) : s.anyCall T phases plugin = false := by
  by_contra hany
  rw [Bool.not_eq_false] at hany
  obtain ⟨f, j, hp, hj, hf⟩ := anyCall_iff.1 hany
  have := h.parent_inBody hp (hphs _ hf).1 (hphs _ hf).2
  rw [hbody j hj] at this
  cases this

theorem Inv.childInCall_eq_false (h : Inv T s) (hflat : T.Flat) (hi0 : i ≠ 0) (hi : T.plugin? i = some plugin)
    (hm : (s.phase i).holdsMutex = true) (hne : s.phase i ≠ .executing) : s.childInCall T plugin = false :=
  h.no_call (fun _ hj => h.child_free hflat hi0 hi hm hne hj) fun p hp => by
    revert hp
    cases p <;> decide

theorem Inv.kept_step (h : Inv T s) (hflat : T.Flat) (hk : ∀ b, s.phase b ≠ .dropped) (he : CallState.step T s i = some s')
    (b : Nat) : s'.phase b ≠ .dropped := by
  obtain ⟨hlt, p, hmove, hs⟩ := step_move he
  rw [hs.phase]
  split
  · generalize hq : s.phase i = q at hmove
    cases hmove with
    | drop hi hin =>
      have hi0 : i ≠ 0 := by
        rintro rfl
        rcases h.root with hr | hr <;> cases hq.symm.trans hr
      rw [h.childInCall_eq_false hflat hi0 hi (by rw [hq]; rfl) (by rw [hq]; nofun)] at hin
      cases hin
    | queue | begin | lock | execute | answer | reply | respond | request | evaluate | resolve | read | finish => nofun
  · exact hk b

theorem start_kept (b : Nat) : start.phase b ≠ .dropped := by
  show (if b = 0 then Phase.running else .idle) ≠ .dropped
  split <;> nofun

structure AtRest (T : CallTree) (s : CallState) : Prop where
  inv : Inv T s
  flat : T.Flat
  kept : ∀ b, s.phase b ≠ .dropped
  halted : Halted (CallState.step T) (fun _ => true) s

theorem AtRest.backend_none (h : AtRest T s) (hi : T.plugin? i = some plugin) :
    backendStep T s i (T.parent? i) plugin = none := by
  have hnone := h.halted i rfl
  unfold CallState.step at hnone
  unfold CallTree.plugin? at hi
  split at hi <;> cases hi
  next hn =>
  simpa [CallTree.parent?, hn] using hnone

theorem AtRest.frontend_none (h : AtRest T s) (hlt : i < T.size) (hi : T.plugin? i = none) :
    frontendStep T s i (T.parent? i) = none := by
  have hnone := h.halted i rfl
  obtain ⟨⟨parent, callee⟩, hn⟩ : ∃ n, T.nodes[i]? = some n := ⟨_, getElem?_eq_getElem hlt⟩
  unfold CallState.step at hnone
  cases callee with
  | backend plugin => simp [CallTree.plugin?, hn] at hi
  | frontend => simpa [CallTree.parent?, hn] using hnone

theorem frontend_of_parent (hp : T.parent? i = some j) (hj : T.plugin? j = some plugin) :
    T.plugin? i = none ∧ i ≠ 0 ∧ i < T.size := by
  have hlt := lt_size_of_parent hp
  have hkind := CallTree.plugin?_isSome_of_parent hp
  rw [hj] at hkind
  exact ⟨isNone_iff_eq_none.1 (by simpa using hkind), by omega, hlt.2⟩

theorem backend_of_parent (hp : T.parent? i = some j) (hj : T.plugin? j = none) :
    (∃ plugin, T.plugin? i = some plugin) ∧ i ≠ 0 := by
  have hlt := lt_size_of_parent hp
  have hkind := CallTree.plugin?_isSome_of_parent hp
  rw [hj] at hkind
  exact ⟨isSome_iff_exists.1 (by simpa using hkind), by omega⟩

theorem allReturned_leaf {b} (hflat : T.Flat) (hb : b ≠ 0) (hpb : T.plugin? b = some plugin)
    (hf : T.parent? i = some b) : s.allReturned T i = true := by
  refine allReturned_iff.2 fun c hc => ?_
  obtain ⟨⟨pc, hpc⟩, hc0⟩ := backend_of_parent hc (frontend_of_parent hf hpb).1
  exact absurd (hflat b c plugin pc hc0 hpc hpb (.step hc (.child hf))).1 hb

theorem AtRest.not_evaluating (h : AtRest T s) (hp : T.parent? i = some j) (hj : T.plugin? j = some plugin)
    (hall : s.allReturned T i = true) : s.phase i ≠ .evaluating := by
  intro hphase
  obtain ⟨hi, -, hlt⟩ := frontend_of_parent hp hj
  have hnone := h.frontend_none hlt hi
  simp [frontendStep, hphase, hall] at hnone

theorem AtRest.not_resolved (h : AtRest T s) (hp : T.parent? i = some j) (hj : T.plugin? j = some plugin) :
    s.phase i ≠ .resolved := by
  intro hphase
  obtain ⟨hi, -, hlt⟩ := frontend_of_parent hp hj
  have hnone := h.frontend_none hlt hi
  simp [frontendStep, hphase] at hnone

theorem AtRest.readerBusy (h : AtRest T s) (hp : T.parent? i = some j) (hj : T.plugin? j = some plugin)
    (hphase : s.phase i = .requested) : s.readerBusy T plugin = true := by
  obtain ⟨hi, -, hlt⟩ := frontend_of_parent hp hj
  have hnone := h.frontend_none hlt hi
  by_contra hreader
  simp [frontendStep, hphase, hp, hj, hreader] at hnone

theorem Phase.cases_frontend (hp : p.ofFrontend = true) (h₁ : p ≠ .requested) (h₂ : p ≠ .evaluating) (h₃ : p ≠ .resolved) :
    p = .idle ∨ p = .returned := by
  revert hp h₁ h₂ h₃
  cases p <;> decide

theorem AtRest.leaf (h : AtRest T s) {b} (hb : b ≠ 0) (hpb : T.plugin? b = some plugin) (hf : T.parent? i = some b) :
    s.phase i = .idle ∨ s.phase i = .returned := by
  obtain ⟨hi, hi0, hlt⟩ := frontend_of_parent hf hpb
  have hnot : ∀ {g c : Nat} {pc : String}, c ≠ 0 → T.plugin? c = some pc → T.parent? g = some c → s.phase g ≠ .evaluating :=
    fun hc hpc hg => h.not_evaluating hg hpc (allReturned_leaf h.flat hc hpc hg)
  refine Phase.cases_frontend (h.inv.frontend hi0 hi) ?_ (hnot hb hpb hf) (h.not_resolved hf hpb)
  intro hphase
  obtain ⟨g, c, hg, hpc, heval⟩ := anyCall_iff.1 (h.readerBusy hf hpb hphase)
  by_cases hc : c = 0
  · subst hc
    exact (h.flat 0 b plugin plugin hb hpb hpc (CallTree.under_root hb (lt_size_of_plugin hpb))).2 rfl
  · exact hnot hc hpc hg (by simpa using heval)

theorem AtRest.calls_returned (h : AtRest T s) (hj : T.plugin? j = some plugin) (hbody : (s.phase j).inBody = true)
    (hrest : ∀ f, T.parent? f = some j → s.phase f = .idle ∨ s.phase f = .returned) : s.allReturned T j = true := by
  refine allReturned_iff.2 ?_
  by_contra hcon
  -- the first call that has not returned could be made
  have hex : ∃ f, T.parent? f = some j ∧ s.phase f ≠ .returned := by
    simpa only [not_forall, exists_prop] using hcon
  obtain ⟨f, ⟨hf, hne⟩, hmin⟩ : ∃ f, (T.parent? f = some j ∧ s.phase f ≠ .returned) ∧
      ∀ k, k < f → ¬(T.parent? k = some j ∧ s.phase k ≠ .returned) := by
    exact ⟨Nat.find hex, Nat.find_spec hex, fun k hk => Nat.find_min hex hk⟩
  have hidle := (hrest f hf).resolve_right hne
  have herl : s.earlierReturned T j f = true := by
    simp only [earlierReturned, List.all_eq_true, List.mem_range, decide_eq_true_eq]
    intro k hk hp
    by_contra hret
    exact hmin k hk ⟨hp, hret⟩
  obtain ⟨hi, -, hlt⟩ := frontend_of_parent hf hj
  have hnone := h.frontend_none hlt hi
  simp [frontendStep, hidle, hf, hbody, herl] at hnone

theorem AtRest.not_holdsMutex (h : AtRest T s) (hi0 : i ≠ 0) (hi : T.plugin? i = some plugin) :
    (s.phase i).holdsMutex = false := by
  by_contra hm
  rw [Bool.not_eq_false] at hm
  have hnone := h.backend_none hi
  have hfree : s.phase i ≠ .executing → ∀ j, T.plugin? j = some plugin → (s.phase j).inBody = false :=
    fun hne _ hj => h.inv.child_free h.flat hi0 hi hm hne hj
  cases hphase : s.phase i with
  | dropped => exact h.kept i hphase
  | sent =>
    have hne : s.phase i ≠ .executing := by
      rw [hphase]
      nofun
    have hin := h.inv.childInCall_eq_false h.flat hi0 hi hm hne
    have hbusy : s.childBusy T plugin = false := by
      rw [childBusy, List.any_eq_false]
      intro k _
      by_cases hk : T.plugin? k = some plugin
      · simp [hfree hne k hk]
      · simp [hk]
    simp [backendStep, hphase, hin, hbusy] at hnone
  | executing =>
    have hall := h.calls_returned hi (by rw [hphase]; rfl) fun f hf => h.leaf hi0 hi hf
    simp [backendStep, hphase, hall] at hnone
  | answered =>
    have hne : s.phase i ≠ .executing := by
      rw [hphase]
      nofun
    have hreader : s.readerBusy T plugin = false := h.inv.no_call (hfree hne) fun p hp => by
      obtain rfl : p = .evaluating := by simpa using hp
      exact ⟨nofun, nofun⟩
    simp [backendStep, hphase, hreader] at hnone
  | idle | queued | locking | replying | requested | evaluating | resolved | running | returned =>
    rw [hphase] at hm
    cases hm

theorem Inv.forall_phase (h : Inv T s) {P : Phase → Bool} (hroot : P .running = false ∧ P .returned = false)
    (hfrn : ∀ p : Phase, p.ofFrontend = true → P p = false)
    (hbac : ∀ k plugin, k ≠ 0 → T.plugin? k = some plugin → P (s.phase k) = false) (k : Nat) :
    P (s.phase k) = false := by
  by_cases hk : k = 0
  · subst hk
    rcases h.root with hr | hr <;> rw [hr]
    · exact hroot.1
    · exact hroot.2
  · cases hplg : T.plugin? k with
    | some plugin => exact hbac k plugin hk hplg
    | none => exact hfrn _ (h.frontend hk hplg)

theorem AtRest.not_onWorker (h : AtRest T s) (hi0 : i ≠ 0) (hi : T.plugin? i = some plugin) :
    (s.phase i).onWorker = false := by
  have hm := h.not_holdsMutex hi0 hi
  have hnone := h.backend_none hi
  cases hphase : s.phase i with
  | locking =>
    have hfree : s.mutexFree T = true := mutexFree_iff.2 fun k _ =>
      h.inv.forall_phase ⟨rfl, rfl⟩ (fun _ hp => (Phase.not_onWorker_of_frontend hp).2)
        (fun _ _ hk hp => h.not_holdsMutex hk hp) k
    simp [backendStep, hphase, hfree] at hnone
  | replying => simp [backendStep, hphase] at hnone
  | idle | queued | sent | dropped | executing | answered | requested | evaluating | resolved | running | returned =>
    rw [hphase] at hm
    exact hm

theorem AtRest.backend (h : AtRest T s) (hi0 : i ≠ 0) (hi : T.plugin? i = some plugin) :
    s.phase i = .idle ∨ s.phase i = .returned := by
  have hkind := h.inv.backend hi0 hi
  have hworker := h.not_onWorker hi0 hi
  cases hphase : s.phase i with
  | idle => exact .inl rfl
  | returned => exact .inr rfl
  | queued =>
    -- the first task can be started
    have hmem := h.inv.tasks.2 hphase
    obtain ⟨k, hhead⟩ : ∃ k, s.tasks.head? = some k := by
      cases ht : s.tasks with
      | nil =>
        rw [ht] at hmem
        cases hmem
      | cons k ks => exact ⟨k, rfl⟩
    have hk := h.inv.tasks.1 (mem_of_head? hhead)
    have hfree : s.workers T = 0 := by
      refine countP_eq_zero.2 fun l _ => ?_
      simp [h.inv.forall_phase ⟨rfl, rfl⟩ (fun _ hp => (Phase.not_onWorker_of_frontend hp).1)
        (fun _ _ hk hp => h.not_onWorker hk hp) l]
    have hk0 : k ≠ 0 := by
      rintro rfl
      rcases h.inv.root with hr | hr <;> cases hk.symm.trans hr
    cases hplg : T.plugin? k with
    | some pk =>
      have hnone := h.backend_none hplg
      simp [backendStep, hk, hhead, hfree] at hnone
    | none =>
      have := h.inv.frontend hk0 hplg
      rw [hk] at this
      cases this
  | locking | sent | dropped | executing | answered | replying =>
    rw [hphase] at hworker
    cases hworker
  | requested | evaluating | resolved | running =>
    rw [hphase] at hkind
    cases hkind

theorem AtRest.frontend_calls_returned (h : AtRest T s) (hj : T.plugin? j = none) (hbody : (s.phase j).inBody = true) :
    s.allReturned T j = true := by
  refine allReturned_iff.2 fun c hc => ?_
  obtain ⟨⟨pc, hpc⟩, hc0⟩ := backend_of_parent hc hj
  refine (h.backend hc0 hpc).resolve_left fun hidle => ?_
  have hnone := h.backend_none hpc
  simp [backendStep, hidle, hc, hbody] at hnone

theorem AtRest.root_returned (h : AtRest T s) (hsize : 0 < T.size) : s.phase 0 = .returned := by
  refine h.inv.root.resolve_left fun hrun => ?_
  have hbody : (s.phase 0).inBody = true := by rw [hrun]; rfl
  cases hroot : T.plugin? 0 with
  | none =>
    have hnone := h.frontend_none hsize hroot
    simp [frontendStep, hrun, h.frontend_calls_returned hroot hbody] at hnone
  | some plugin =>
    have hnot : ∀ {f}, T.parent? f = some 0 → s.phase f ≠ .evaluating := by
      intro f hf hphase
      have hall := h.frontend_calls_returned (frontend_of_parent hf hroot).1 (by rw [hphase]; rfl)
      exact h.not_evaluating hf hroot hall hphase
    have hrest : ∀ f, T.parent? f = some 0 → s.phase f = .idle ∨ s.phase f = .returned := by
      intro f hf
      obtain ⟨hi, hf0, hlt⟩ := frontend_of_parent hf hroot
      refine Phase.cases_frontend (h.inv.frontend hf0 hi) ?_ (hnot hf) (h.not_resolved hf hroot)
      intro hphase
      obtain ⟨g, c, hg, hpc, heval⟩ := anyCall_iff.1 (h.readerBusy hf hroot hphase)
      have heval : s.phase g = .evaluating := by simpa using heval
      by_cases hc : c = 0
      · subst hc
        exact hnot hg heval
      · exact h.not_evaluating hg hpc (allReturned_leaf h.flat hc hpc hg) heval
    have hnone := h.backend_none hroot
    simp [backendStep, hrun, h.calls_returned hroot hbody hrest] at hnone

theorem AtRest.returned (h : AtRest T s) (hlt : i < T.size) : s.phase i = .returned := by
  have hroot := h.root_returned (lt_of_le_of_lt (zero_le _) hlt)
  induction i using Nat.strongRecOn with
  | ind i ih =>
    by_cases hi : i = 0
    · rw [hi, hroot]
    · obtain ⟨n, hn⟩ : ∃ n, T.nodes[i]? = some n := ⟨_, getElem?_eq_getElem hlt⟩
      cases hp : n.parent with
      | none => exact absurd ((T.root hn).1 hp) hi
      | some j =>
        have hji := T.ordered hn hp
        refine h.inv.late (j := j) (by simp [CallTree.parent?, hn, hp]) ?_
        rw [ih j hji (lt_trans hji hlt)]
        rfl

/-- The calls of a tree take a bounded number of steps.  When they have come to rest all of them have returned, in every
schedule, exactly if the tree is flat. -/
theorem nested_calls_return_iff (T : CallTree) :
    (∀ es s, run (step T) start es = some s → es.length ≤ 8 * T.size) ∧
      ((∀ es s, run (step T) start es = some s → Halted (step T) (fun _ => true) s →
        ∀ i, i < T.size → s.phase i = .returned) ↔ T.Flat) := by
  refine ⟨fun es s hrun => ?_, flat_of_returned, fun hflat es s hrun hhalt i hlt => ?_⟩
  · have hrank : rank T s + es.countP (fun _ => true) ≤ rank T start := run_rank (fun _ he => rank_lt he) hrun
    have hstr := rank_start_le T
    rw [countP_true] at hrank
    omega
  · have := run_induction (P := fun _ s => Inv T s ∧ ∀ b, s.phase b ≠ .dropped)
      ⟨start_inv, start_kept⟩
      (fun _ ih he => ⟨ih.1.step he, ih.1.kept_step hflat ih.2 he⟩) hrun
    exact AtRest.returned ⟨this.1, hflat, this.2, hhalt⟩ hlt

def thereAndBack : CallTree where
  nodes := [⟨none, .frontend⟩, ⟨some 0, .backend "p"⟩, ⟨some 1, .frontend⟩, ⟨some 2, .backend "q"⟩]
  root := by
    intro i n h
    rcases i with _ | _ | _ | _ | i <;> cases h <;> simp
  ordered := by
    intro i j n h hp
    rcases i with _ | _ | _ | _ | i <;> cases h <;> cases hp <;> decide
  alternates := by
    intro i j n m h hp hm
    rcases i with _ | _ | _ | _ | i <;> cases h <;> cases hp <;> cases hm <;> rfl

theorem nested_evaluate_blocks : ∃ s, run (step thereAndBack) start [1, 1, 1, 1, 2, 2, 3, 3] = some s ∧
    Halted (step thereAndBack) (fun _ => true) s ∧ s.phase 1 = .executing ∧ s.phase 2 = .evaluating ∧
    s.phase 3 = .locking := by
  refine ⟨_, rfl, ?_, rfl, rfl, rfl⟩
  intro i _
  rcases i with _ | _ | _ | _ | i <;> rfl

end CallState

end CloudeLoader.NestedCalls
