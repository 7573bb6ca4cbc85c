import CloudeLoader.Ipc.ParentCalls
import CloudeLoader.Lib.InsertionMap

/-!
# The operations on the backends (`backend_mgr.cc`)

Any number of threads call the operations of the `backend_manager` at the same time.  The table `m_processes` is under
`m_processes_mutex`.  `shutdown`, with which the program ends, is not among the operations.
-/

namespace CloudeLoader.BackendCalls

open JsonDoc Transition List Option

variable {op : ManagerOp}

/-- What the parent sends to a child; the numbers of the requests are those of `Ipc.ParentCalls`. -/
inductive ParentFrame
  | request (method : String) (params : Json)
  | notify (method : String) (params : Json)

structure ProcessMetrics where
  rssBytes : Nat
  heapBytes : Nat
  cpuPercent : Rat

/-- A child.  `rssBytes` and `cpuPercent` are what the operating system says about it. -/
structure PluginProcess where
  pluginName : String
  alive : Bool
  rssBytes : Nat
  cpuPercent : Rat
  frames : List ParentFrame

inductive ManagerOp
  | evaluate (pluginName : String) (script : Json)
  | notifyFrontendLoaded (pluginName : String)
  | notifyChild (pluginName method : String) (params : Json)
  | isAnyBackendRunning (pluginName : String)
  | destroyPlugin (pluginName : String)
  | getPluginMetrics (pluginName : String)
  | getAllPluginMetrics
  | hasAnyBackends
  | hasAllBackendsStopped
  | spawnPlugin (pluginName : String)

def ManagerOp.target? : ManagerOp → Option String
  | .evaluate pluginName _ => some pluginName
  | .notifyFrontendLoaded pluginName => some pluginName
  | .notifyChild pluginName _ _ => some pluginName
  | .isAnyBackendRunning pluginName => some pluginName
  | .destroyPlugin pluginName => some pluginName
  | .getPluginMetrics pluginName => some pluginName
  | _ => none

inductive Reply
  | json (v : Json)
  | void
  | bool (b : Bool)
  | metrics (m : ProcessMetrics)
  | allMetrics (ms : List (String × ProcessMetrics))

/-- Where a child is called from, with what is kept for the time after the call. -/
inductive CallSite
  | evaluate
  | metrics (os : ProcessMetrics)
  | allMetrics (name : String) (os : ProcessMetrics) (rest : List (String × Nat)) (measured : List (String × ProcessMetrics))
  | shutdown

def CallSite.locked : CallSite → Bool
  | .shutdown => false
  | _ => true

def CallSite.rest : CallSite → List (String × Nat)
  | .allMetrics _ _ rest _ => rest
  | _ => []

inductive OpPhase
  | spawning
  | waiting
  | calling (process : Nat) (site : CallSite)
  | unloading
  | returned (reply : Reply)

structure OpThread where
  op : ManagerOp
  phase : OpPhase

/-- The manager with the threads that are in it.  A process is named by its place in `children`, a thread by its place in
`threads`; `mutex` is the thread that holds `m_processes_mutex` across a call. -/
structure Manager where
  processes : InsertionMap String Nat
  children : List PluginProcess
  mutex : Option Nat
  threads : List OpThread

inductive ManagerEvent
  | invoke (op : ManagerOp)
  | spawned (t : Nat) (ok : Bool)
  | enter (t : Nat)
  | finish (t : Nat) (outcome : Ipc.CallOutcome)
  | unload (t : Nat)
  | exits (process : Nat)
  | sample (process : Nat) (rssBytes : Nat) (cpuPercent : Rat)

/-! ### Results -/

def callResult (pluginName : String) : Ipc.CallOutcome → Except String Json
  | .settled (.response _ result) => result
  | .settled .disconnected => .error ("child disconnected: " ++ pluginName)
  | .sendFailure => .error ("failed to send RPC to child: " ++ pluginName)
  | .timeout => .error ("RPC timeout for child: " ++ pluginName)

def failure (error : String) : Json := .obj [("success", .bool false), ("error", .str error)]

def evaluateReply : Except String Json → Json
  | .ok v => v
  | .error what => failure what

/-- The conversion to `size_t`, which has 64 bits here. -/
def getSize : Json → Except JsonError Nat
  | .bool b => .ok (if b then 1 else 0)
  | .int n => .ok (n % 2 ^ 64).toNat
  | .float n => .ok (n % 2 ^ 64).toNat
  | _ => .error .typeMismatch

def heapBytes : Except String Json → Nat
  | .ok result =>
    match result.value getSize "heap_bytes" 0 with
    | .ok n => n
    | .error _ => 0
  | .error _ => 0

namespace Manager

def start : Manager := ⟨.empty, [], none, []⟩

variable (m : Manager)

def nameOf (process : Nat) : String := (m.children[process]?).elim "" (·.pluginName)

def isAlive (process : Nat) : Bool := (m.children[process]?).any (·.alive)

def osMetrics (process : Nat) : ProcessMetrics :=
  match m.children[process]? with
  | some x => ⟨x.rssBytes, 0, x.cpuPercent⟩
  | none => ⟨0, 0, 0⟩

/-! ### Steps -/

def setPhase (t : Nat) (phase : OpPhase) : Manager :=
  { m with threads := m.threads.modify t fun x => { x with phase } }

def sendFrame (process : Nat) (frame : ParentFrame) : Manager :=
  { m with children := m.children.modify process fun x => { x with frames := x.frames ++ [frame] } }

def call (t process : Nat) (method : String) (params : Json) (site : CallSite) : Manager :=
  (m.sendFrame process (.request method params)).setPhase t (.calling process site)

def measure (t : Nat) (measured : List (String × ProcessMetrics)) : List (String × Nat) → Manager
  | (name, process) :: rest =>
    { m with mutex := some t }.call t process "get_metrics" .null (.allMetrics name (m.osMetrics process) rest measured)
  | [] => { m with mutex := none }.setPhase t (.returned (.allMetrics measured))

def store (pluginName : String) : Manager :=
  { m with
    children := m.children ++ [⟨pluginName, true, 0, 0, []⟩]
    processes := (m.processes.addKey pluginName m.children.length).modify pluginName fun _ => m.children.length }

def enter (t : Nat) : ManagerOp → Manager
  | .evaluate pluginName script =>
    match m.processes.get pluginName with
    | none => m.setPhase t (.returned (.json (failure ("plugin not running: " ++ pluginName))))
    | some process => { m with mutex := some t }.call t process "evaluate" script .evaluate
  | .notifyFrontendLoaded pluginName =>
    match m.processes.get pluginName with
    | none => m.setPhase t (.returned .void)
    | some process => (m.sendFrame process (.notify "on_frontend_loaded" .null)).setPhase t (.returned .void)
  | .notifyChild pluginName method params =>
    match m.processes.get pluginName with
    | none => m.setPhase t (.returned .void)
    | some process => (m.sendFrame process (.notify method params)).setPhase t (.returned .void)
  | .isAnyBackendRunning pluginName =>
    m.setPhase t (.returned (.bool ((m.processes.get pluginName).any m.isAlive)))
  | .destroyPlugin pluginName =>
    match m.processes.get pluginName with
    | none => m.setPhase t .unloading
    | some process => { m with processes := m.processes.erase pluginName }.call t process "shutdown" .null .shutdown
  | .getPluginMetrics pluginName =>
    match m.processes.get pluginName with
    | none => m.setPhase t (.returned (.metrics ⟨0, 0, 0⟩))
    | some process =>
      { m with mutex := some t }.call t process "get_metrics" .null (.metrics (m.osMetrics process))
  | .getAllPluginMetrics => m.measure t [] m.processes.entries
  | .hasAnyBackends => m.setPhase t (.returned (.bool !m.processes.entries.isEmpty))
  | .hasAllBackendsStopped => m.setPhase t (.returned (.bool (m.processes.entries.all fun e => !m.isAlive e.2)))
  | .spawnPlugin pluginName => (m.store pluginName).setPhase t (.returned (.bool true))

def finish (t process : Nat) (outcome : Ipc.CallOutcome) : CallSite → Manager
  | .evaluate =>
    { m with mutex := none }.setPhase t (.returned (.json (evaluateReply (callResult (m.nameOf process) outcome))))
  | .metrics os =>
    { m with mutex := none }.setPhase t
      (.returned (.metrics { os with heapBytes := heapBytes (callResult (m.nameOf process) outcome) }))
  | .allMetrics name os rest measured =>
    m.measure t (measured ++ [(name, { os with heapBytes := heapBytes (callResult (m.nameOf process) outcome) })]) rest
  | .shutdown => m.setPhase t .unloading

def step : ManagerEvent → Option Manager
  | .invoke op =>
    match op with
    | .spawnPlugin _ => some { m with threads := m.threads ++ [⟨op, .spawning⟩] }
    | _ => some { m with threads := m.threads ++ [⟨op, .waiting⟩] }
  | .spawned t ok =>
    match m.threads[t]? with
    | some ⟨_, .spawning⟩ => some (m.setPhase t (if ok then .waiting else .returned (.bool false)))
    | _ => none
  | .enter t =>
    match m.threads[t]?, m.mutex with
    | some ⟨op, .waiting⟩, none => some (m.enter t op)
    | _, _ => none
  | .finish t outcome =>
    match m.threads[t]? with
    | some ⟨_, .calling process site⟩ => some (m.finish t process outcome site)
    | _ => none
  | .unload t =>
    match m.threads[t]? with
    | some ⟨_, .unloading⟩ => some (m.setPhase t (.returned (.bool true)))
    | _ => none
  | .exits process => some { m with children := m.children.modify process fun x => { x with alive := false } }
  | .sample process rssBytes cpuPercent =>
    some { m with children := m.children.modify process fun x => { x with rssBytes, cpuPercent } }

def avoids (process : Nat) (m : Manager) : ManagerEvent → Bool
  | .finish t _ =>
    match m.threads[t]? with
    | some ⟨_, .calling q _⟩ => q ≠ process
    | _ => true
  | _ => true

/-! ### The holder of the mutex -/

/-- What is known about a thread.  A call under the mutex is to a process in the table, and so are the calls that will follow
it; a call without the mutex is to a process that was taken out of the table. -/
def ThreadOk (t : Nat) : OpPhase → Prop
  | .calling process site =>
    if site.locked then
      m.mutex = some t ∧ (∃ n, m.processes.get n = some process) ∧ ∀ e ∈ site.rest, m.processes.get e.1 = some e.2
    else m.mutex ≠ some t ∧ process < m.children.length ∧ ∀ n, m.processes.get n ≠ some process
  | _ => m.mutex ≠ some t

structure Inv : Prop where
  named : ∀ {n process}, m.processes.get n = some process → ∃ y, m.children[process]? = some y ∧ y.pluginName = n
  holder : ∀ {t}, m.mutex = some t → t < m.threads.length
  threads : ∀ {t : Nat} {x}, m.threads[t]? = some x → m.ThreadOk t x.phase

variable {m} {m' : Manager} {t u process : Nat} {x : OpThread} {site : CallSite} {phase : OpPhase}

theorem ThreadOk.mono (h : m.ThreadOk u phase) (hmut : m'.mutex = some u ↔ m.mutex = some u)
    (hproc : m'.processes = m.processes) (hlen : m.children.length ≤ m'.children.length) : m'.ThreadOk u phase := by
  cases phase with
  | calling process site =>
    simp only [ThreadOk, hproc, hmut, ne_eq] at h ⊢
    split at h
    · next hl => rwa [if_pos hl]
    · next hl =>
      rw [if_neg hl]
      exact ⟨h.1, by omega, h.2.2⟩
  | spawning | waiting | unloading | returned =>
    simp only [ThreadOk, ne_eq, hmut] at h ⊢
    exact h

/-- While nobody holds the mutex only the calls of processes that were taken out of the table are under way. -/
theorem ThreadOk.free (h : m.ThreadOk u phase) (hmut : m.mutex = none) (hmut' : m'.mutex = none)
    (hlen : m.children.length ≤ m'.children.length)
    (hget : ∀ {n q}, m'.processes.get n = some q → q < m.children.length → m.processes.get n = some q) :
    m'.ThreadOk u phase := by
  cases phase with
  | calling process site =>
    simp only [ThreadOk, hmut, hmut'] at h ⊢
    split at h
    · cases h.1
    · next hl =>
      rw [if_neg hl]
      exact ⟨nofun, by omega, fun n hn => h.2.2 n (hget hn h.2.1)⟩
  | spawning | waiting | unloading | returned => simp [ThreadOk, hmut']

theorem getElem?_setPhase (hx : m.threads[t]? = some x) (phase : OpPhase) :
    (m.setPhase t phase).threads[t]? = some { x with phase } := by
  simp [setPhase, hx]

theorem getElem?_setPhase_ne (hne : t ≠ u) (phase : OpPhase) : (m.setPhase t phase).threads[u]? = m.threads[u]? := by
  simp [setPhase, hne]

theorem Inv.setPhase (h : Inv m) (hx : m.threads[t]? = some x) (hthr : m'.threads = m.threads)
    (hnam : ∀ {n process}, m'.processes.get n = some process → ∃ y, m'.children[process]? = some y ∧ y.pluginName = n)
    (hoth : ∀ {u y}, u ≠ t → m.threads[u]? = some y → m.ThreadOk u y.phase → m'.ThreadOk u y.phase)
    (hhol : ∀ {u}, m'.mutex = some u → u = t ∨ m.mutex = some u) (hnew : m'.ThreadOk t phase) :
    Inv (m'.setPhase t phase) := by
  have hok : ∀ {v ph}, m'.ThreadOk v ph → (m'.setPhase t phase).ThreadOk v ph :=
    fun hv => hv.mono Iff.rfl rfl (Nat.le_refl _)
  refine ⟨hnam, ?_, ?_⟩
  · intro u hu
    have hlt := lt_of_getElem? hx
    have hlen : (m'.setPhase t phase).threads.length = m.threads.length := by simp [Manager.setPhase, hthr]
    rw [hlen]
    rcases hhol hu with rfl | hu
    · exact hlt
    · exact h.holder hu
  · intro u y hy
    by_cases hu : t = u
    · subst hu
      rw [getElem?_setPhase (hthr ▸ hx)] at hy
      cases hy
      exact hok hnew
    · rw [getElem?_setPhase_ne hu, hthr] at hy
      exact hok (hoth (Ne.symm hu) hy (h.threads hy))

theorem named_modify {children : List PluginProcess} {f : PluginProcess → PluginProcess}
    (hf : ∀ x, (f x).pluginName = x.pluginName) {n : String} (h : ∃ y, children[process]? = some y ∧ y.pluginName = n) (q : Nat) :
    ∃ y, (children.modify q f)[process]? = some y ∧ y.pluginName = n := by
  obtain ⟨y, hy, hn⟩ := h
  by_cases hq : q = process
  · subst hq
    exact ⟨f y, by rw [getElem?_modify_eq, hy]; rfl, (hf y).trans hn⟩
  · exact ⟨y, by rw [getElem?_modify_ne _ _ hq, hy], hn⟩

theorem Inv.setPhase_quiet (h : Inv m) (hx : m.threads[t]? = some x) (hphase : m.ThreadOk t phase) :
    Inv (m.setPhase t phase) :=
  h.setPhase hx rfl h.named (fun _ _ hok => hok) (fun hu => .inr hu) hphase

theorem Inv.sendFrame (h : Inv m) (frame : ParentFrame) : Inv (m.sendFrame process frame) := by
  refine ⟨fun hn => named_modify (by intro; rfl) (h.named hn) _, h.holder, fun hx => ?_⟩
  exact (h.threads hx).mono Iff.rfl rfl (by simp [Manager.sendFrame])

theorem Inv.call (h : Inv m) (hx : m.threads[t]? = some x) (hfree : ∀ u, m.mutex = some u → u = t)
    (hloc : site.locked = true) (hget : ∃ n, m.processes.get n = some process)
    (hrest : ∀ e ∈ site.rest, m.processes.get e.1 = some e.2)
    (method : String) (params : Json) : Inv ({ m with mutex := some t }.call t process method params site) := by
  refine h.setPhase hx rfl (fun hn => named_modify (by intro; rfl) (h.named hn) _) ?_
    (fun hu => .inl (some.inj hu).symm) ?_
  · intro u y hu _ hok
    refine hok.mono ?_ rfl (by simp [Manager.sendFrame])
    refine iff_of_false (fun hm => hu (some.inj hm).symm) fun hm => hu (hfree u hm)
  · simp only [ThreadOk]
    rw [if_pos hloc]
    exact ⟨rfl, hget, hrest⟩

theorem Inv.release (h : Inv m) (hx : m.threads[t]? = some x) (hfree : ∀ u, m.mutex = some u → u = t) (reply : Reply) :
    Inv ({ m with mutex := none }.setPhase t (.returned reply)) := by
  refine h.setPhase hx rfl h.named ?_ nofun nofun
  intro u y hu _ hok
  refine hok.mono ?_ rfl (Nat.le_refl _)
  exact iff_of_false nofun fun hm => hu (hfree u hm)

theorem Inv.measure (h : Inv m) (hx : m.threads[t]? = some x) (hfree : ∀ u, m.mutex = some u → u = t)
    {rest} (hrest : ∀ e ∈ rest, m.processes.get e.1 = some e.2)
    (measured : List (String × ProcessMetrics)) : Inv (m.measure t measured rest) := by
  cases rest with
  | nil => exact h.release hx hfree _
  | cons e rest =>
    refine h.call hx hfree rfl ⟨e.1, hrest e mem_cons_self⟩ ?_ _ _
    exact fun e he => hrest e (mem_cons_of_mem _ he)

theorem Inv.destroy (h : Inv m) (hx : m.threads[t]? = some x) (hmut : m.mutex = none) {pluginName : String}
    (hget : m.processes.get pluginName = some process) :
    Inv ({ m with processes := m.processes.erase pluginName }.call t process "shutdown" .null .shutdown) := by
  have hers : ∀ {n q}, (m.processes.erase pluginName).get n = some q → n ≠ pluginName ∧ m.processes.get n = some q := by
    intro n q hn
    by_cases hne : n = pluginName
    · subst hne
      rw [InsertionMap.get_erase_self] at hn
      cases hn
    · rw [InsertionMap.get_erase_ne hne] at hn
      exact ⟨hne, hn⟩
  obtain ⟨y, hy, hyn⟩ := h.named hget
  refine h.setPhase hx rfl (fun hn => named_modify (by intro; rfl) (h.named (hers hn).2) _) ?_ (fun hu => .inr hu) ?_
  · intro u z _ _ hok
    exact hok.free hmut hmut (by simp [Manager.sendFrame]) fun hn _ => (hers hn).2
  · refine ⟨by simp [Manager.sendFrame, hmut], ?_, fun n hn => ?_⟩
    · simpa [Manager.sendFrame] using lt_of_getElem? hy
    · -- one process has one name
      obtain ⟨hne, hn⟩ := hers hn
      obtain ⟨z, hz, hzn⟩ := h.named hn
      cases hy.symm.trans hz
      exact hne (hzn.symm.trans hyn)

theorem Inv.store (h : Inv m) (hx : m.threads[t]? = some x) (hmut : m.mutex = none) (pluginName : String) (reply : Reply) :
    Inv ((m.store pluginName).setPhase t (.returned reply)) := by
  have hget : ∀ {n q}, (m.store pluginName).processes.get n = some q →
      n = pluginName ∧ q = m.children.length ∨ m.processes.get n = some q := by
    intro n q hn
    by_cases hne : n = pluginName
    · subst hne
      simp only [Manager.store, InsertionMap.get_modify_self, InsertionMap.get_addKey_self, map_some,
        some.injEq] at hn
      exact .inl ⟨rfl, hn.symm⟩
    · simp only [Manager.store, InsertionMap.get_modify_ne hne, InsertionMap.get_addKey_ne hne] at hn
      exact .inr hn
  refine h.setPhase hx rfl ?_ ?_ (fun hu => .inr hu) (by simp [ThreadOk, Manager.store, hmut])
  · intro n q hn
    rcases hget hn with ⟨rfl, rfl⟩ | hn
    · exact ⟨⟨n, true, 0, 0, []⟩, by simp [Manager.store], rfl⟩
    · obtain ⟨y, hy, hyn⟩ := h.named hn
      exact ⟨y, by simp [Manager.store, List.getElem?_append_left (lt_of_getElem? hy), hy], hyn⟩
  · intro u z _ _ hok
    refine hok.free hmut hmut (by simp [Manager.store]) fun hn hlt => ?_
    rcases hget hn with ⟨-, rfl⟩ | hn
    · exact absurd hlt (Nat.lt_irrefl _)
    · exact hn

theorem get_of_mem_entries {e} (he : e ∈ m.processes.entries) : m.processes.get e.1 = some e.2 := by
  obtain ⟨i, hi⟩ := mem_iff_getElem?.1 he
  exact InsertionMap.get_of_getElem? hi

theorem Inv.enter (h : Inv m) (hx : m.threads[t]? = some ⟨op, .waiting⟩) (hmut : m.mutex = none) :
    Inv (m.enter t op) := by
  have hfree : ∀ u, m.mutex = some u → u = t := by simp [hmut]
  have hret : ∀ {m' : Manager} (reply : Reply), m'.mutex = none → m'.ThreadOk t (.returned reply) := by
    intro m' reply hm
    simp [ThreadOk, hm]
  cases op with
  | evaluate pluginName script =>
    simp only [Manager.enter]
    split
    · exact h.setPhase_quiet hx (hret _ hmut)
    · next process hget => exact h.call hx hfree rfl ⟨_, hget⟩ (by simp [CallSite.rest]) _ _
  | notifyFrontendLoaded pluginName | notifyChild pluginName method params =>
    simp only [Manager.enter]
    split
    · exact h.setPhase_quiet hx (hret _ hmut)
    · exact (h.sendFrame _).setPhase_quiet hx (hret _ hmut)
  | isAnyBackendRunning | hasAnyBackends | hasAllBackendsStopped => exact h.setPhase_quiet hx (hret _ hmut)
  | destroyPlugin pluginName =>
    simp only [Manager.enter]
    split
    · exact h.setPhase_quiet hx (by simp [ThreadOk, hmut])
    · next process hget => exact h.destroy hx hmut hget
  | getPluginMetrics pluginName =>
    simp only [Manager.enter]
    split
    · exact h.setPhase_quiet hx (hret _ hmut)
    · next process hget => exact h.call hx hfree rfl ⟨_, hget⟩ (by simp [CallSite.rest]) _ _
  | getAllPluginMetrics => exact h.measure hx hfree (fun _ he => get_of_mem_entries he) _
  | spawnPlugin pluginName => exact h.store hx hmut _ _

theorem Inv.finish (h : Inv m) (hx : m.threads[t]? = some ⟨op, .calling process site⟩)
    (outcome : Ipc.CallOutcome) : Inv (m.finish t process outcome site) := by
  have hok : m.ThreadOk t (.calling process site) := h.threads hx
  simp only [ThreadOk] at hok
  split at hok
  · have hfree : ∀ u, m.mutex = some u → u = t := fun u hu => some.inj (hu.symm.trans hok.1)
    cases site with
    | evaluate | metrics => exact h.release hx hfree _
    | allMetrics name os rest measured => exact h.measure hx hfree hok.2.2 _
    | shutdown => contradiction
  · cases site with
    | evaluate | metrics | allMetrics => contradiction
    | shutdown => exact h.setPhase_quiet hx hok.1

theorem Inv.step (h : Inv m) {e : ManagerEvent} (he : m.step e = some m') : Inv m' := by
  have hchl : ∀ {f : PluginProcess → PluginProcess} (q : Nat), (∀ x, (f x).pluginName = x.pluginName) →
      Inv { m with children := m.children.modify q f } := by
    intro f q hf
    refine ⟨fun hn => named_modify hf (h.named hn) _, h.holder, fun hx => ?_⟩
    exact (h.threads hx).mono Iff.rfl rfl (by simp)
  have hthr : ∀ {y : OpThread}, m.mutex ≠ some m.threads.length → y.phase = .spawning ∨ y.phase = .waiting →
      Inv { m with threads := m.threads ++ [y] } := by
    intro y hm hy
    refine ⟨h.named, fun hu => ?_, fun {u} {z} hz => ?_⟩
    · have := h.holder hu
      rw [length_append]
      omega
    · rcases getElem?_arrive hz with hz | ⟨rfl, rfl⟩
      · exact (h.threads hz).mono Iff.rfl rfl (Nat.le_refl _)
      · rcases hy with hy | hy <;> rw [hy] <;> exact hm
  have hlast : m.mutex ≠ some m.threads.length := fun hm => Nat.lt_irrefl _ (h.holder hm)
  cases e with
  | invoke op => cases op <;> cases he <;> exact hthr hlast (by simp)
  | spawned t ok =>
    simp only [Manager.step] at he
    split at he <;> cases he
    next hx =>
    have hm : m.mutex ≠ some t := h.threads hx
    cases ok <;> exact h.setPhase_quiet hx hm
  | enter t =>
    simp only [Manager.step] at he
    split at he <;> cases he
    next hx hmut =>
    exact h.enter hx hmut
  | finish t outcome =>
    simp only [Manager.step] at he
    split at he <;> cases he
    next hx =>
    exact h.finish hx outcome
  | unload t =>
    simp only [Manager.step] at he
    split at he <;> cases he
    next hx =>
    have hm : m.mutex ≠ some t := h.threads hx
    exact h.setPhase_quiet hx hm
  | exits process | sample process =>
    cases he
    exact hchl _ fun _ => rfl

theorem start_inv : Inv start := by
  refine ⟨fun hn => ?_, nofun, fun hx => ?_⟩
  · simp [start, InsertionMap.get, InsertionMap.empty] at hn
  · simp [start] at hx

theorem run_inv {es} (h : run step start es = some m) : Inv m :=
  run_induction (P := fun _ m => Inv m) start_inv (fun _ ih he => ih.step he) h

/-! ### A call under the mutex -/

/-- A thread holds the mutex and calls a process, and another thread waits for the mutex. -/
structure Hung (process t u : Nat) (op : ManagerOp) (m : Manager) : Prop where
  inv : Inv m
  mutex : m.mutex = some t
  caller : ∃ x site, m.threads[t]? = some x ∧ x.phase = .calling process site
  waiter : m.threads[u]? = some ⟨op, .waiting⟩

theorem Hung.step (h : Hung process t u op m) {e} (hav : m.avoids process e = true)
    (he : m.step e = some m') : Hung process t u op m' := by
  obtain ⟨x, site, hx, hcall⟩ := h.caller
  have hinv := h.inv.step he
  -- a thread in another phase than these two
  have hoth : ∀ {v : Nat} {y : OpThread} {phase : OpPhase}, m.threads[v]? = some y → (∀ s, y.phase ≠ .calling process s) →
      y.phase ≠ .waiting → m' = m.setPhase v phase → Hung process t u op m' := by
    intro v y phase hy hnc hnw hm
    have hvt : v ≠ t := by
      rintro rfl
      cases hx.symm.trans hy
      exact hnc site hcall
    have hvu : v ≠ u := by
      rintro rfl
      cases h.waiter.symm.trans hy
      exact hnw rfl
    subst hm
    exact ⟨hinv, h.mutex, ⟨x, site, by rw [getElem?_setPhase_ne hvt, hx], hcall⟩, by rw [getElem?_setPhase_ne hvu, h.waiter]⟩
  cases e with
  | invoke o =>
    have hm : ∃ y, m' = { m with threads := m.threads ++ [y] } := by cases o <;> cases he <;> exact ⟨_, rfl⟩
    obtain ⟨y, rfl⟩ := hm
    exact ⟨hinv, h.mutex, ⟨x, site, by rw [getElem?_append_left (lt_of_getElem? hx), hx], hcall⟩,
      by rw [getElem?_append_left (lt_of_getElem? h.waiter), h.waiter]⟩
  | spawned v ok =>
    simp only [Manager.step] at he
    split at he <;> cases he
    next hy =>
    exact hoth hy nofun nofun rfl
  | enter v =>
    simp only [Manager.step, h.mutex] at he
    split at he
    · next hm => cases hm
    · cases he
  | finish v outcome =>
    simp only [Manager.step] at he
    split at he <;> cases he
    next o q s hy =>
    simp only [Manager.avoids, hy, decide_eq_true_eq] at hav
    have hok := h.inv.threads hy
    simp only [ThreadOk] at hok
    split at hok
    · -- a second holder
      obtain rfl : t = v := some.inj (h.mutex.symm.trans hok.1)
      cases hx.symm.trans hy
      cases hcall
      exact absurd rfl hav
    · cases s with
      | evaluate | metrics | allMetrics => contradiction
      | shutdown => exact hoth hy (by simp [hav]) nofun rfl
  | unload v =>
    simp only [Manager.step] at he
    split at he <;> cases he
    next hy =>
    exact hoth hy nofun nofun rfl
  | exits | sample =>
    cases he
    exact ⟨hinv, h.mutex, h.caller, h.waiter⟩

/-! ### A call without the mutex -/

/-- The state from which an operation on another plugin goes on: the process is out of the table. -/
structure Moved (process u : Nat) (op : ManagerOp) (m : Manager) : Prop where
  inv : Inv m
  moved : ∀ n, m.processes.get n ≠ some process
  waiter : m.threads[u]? = some ⟨op, .waiting⟩

theorem Moved.finish (h : Moved process u op m) {x}
    (hx : m.threads[t]? = some x) {q : Nat} (hphase : x.phase = .calling q site) (hloc : site.locked = true) :
    ∃ m', ReachesBy step (avoids process) m m' ∧ Moved process u op m' ∧ (m'.mutex = none ∨
      m'.mutex = some t ∧ ∃ y q' site', m'.threads[t]? = some y ∧ y.phase = .calling q' site' ∧ site'.locked = true ∧
        site'.rest.length < site.rest.length) := by
  obtain ⟨o, ph⟩ := x
  obtain rfl : ph = .calling q site := hphase
  have hok := h.inv.threads hx
  simp only [ThreadOk, hloc, if_true] at hok
  have hut : t ≠ u := by
    rintro rfl
    cases hx.symm.trans h.waiter
  have hstep : m.step (.finish t .timeout) = some (m.finish t q .timeout site) := by simp [Manager.step, hx]
  have hav : m.avoids process (.finish t .timeout) = true := by
    obtain ⟨n, hn⟩ := hok.2.1
    simp only [Manager.avoids, hx, ne_eq, decide_eq_true_eq]
    rintro rfl
    exact h.moved n hn
  have hinv := h.inv.step hstep
  refine ⟨_, .of_step hstep hav, ?_⟩
  cases site with
  | shutdown => cases hloc
  | evaluate | metrics =>
    exact ⟨⟨hinv, h.moved, by rw [Manager.finish, getElem?_setPhase_ne hut]; exact h.waiter⟩, .inl rfl⟩
  | allMetrics name os rest measured =>
    cases rest with
    | nil => exact ⟨⟨hinv, h.moved, by rw [Manager.finish, measure, getElem?_setPhase_ne hut]; exact h.waiter⟩, .inl rfl⟩
    | cons e rest =>
      refine ⟨⟨hinv, h.moved, ?_⟩, .inr ⟨rfl, _, _, _, getElem?_setPhase hx _, rfl, rfl, Nat.lt_succ_self _⟩⟩
      rw [Manager.finish, measure, call, getElem?_setPhase_ne hut]
      exact h.waiter

theorem Moved.exists_free (h : Moved process u op m) :
    ∃ m', ReachesBy step (avoids process) m m' ∧ Moved process u op m' ∧ m'.mutex = none := by
  cases hmut : m.mutex with
  | none => exact ⟨m, .refl, h, hmut⟩
  | some t =>
    obtain ⟨x, hx⟩ : ∃ x, m.threads[t]? = some x := ⟨_, getElem?_eq_getElem (h.inv.holder hmut)⟩
    have hok := h.inv.threads hx
    obtain ⟨q, site, hphase, hloc⟩ : ∃ q site, x.phase = .calling q site ∧ site.locked = true := by
      cases hp : x.phase with
      | calling q site =>
        rw [hp] at hok
        simp only [ThreadOk] at hok
        split at hok
        · next hl => exact ⟨q, site, rfl, hl⟩
        · exact absurd hmut hok.1
      | spawning | waiting | unloading | returned =>
        rw [hp] at hok
        exact absurd hmut hok
    -- by induction on the processes that `get_all_plugin_metrics` still has to call
    clear hok
    induction hn : site.rest.length using Nat.strongRecOn generalizing m x q site with
    | ind n ih =>
      obtain ⟨m₁, hrch, h₁, hnext⟩ := h.finish hx hphase hloc
      rcases hnext with hfree | ⟨hmut₁, y, q', site', hy, hphase', hloc', hlt⟩
      · exact ⟨m₁, hrch, h₁, hfree⟩
      · obtain ⟨m₂, hrch₂, h₂⟩ := ih _ (hn ▸ hlt) h₁ hmut₁ y hy q' site' hphase' hloc' rfl
        exact ⟨m₂, hrch.trans hrch₂, h₂⟩

/-- A thread can get to the end of its operation without the end of a call of the process. -/
def Completes (process u : Nat) (m : Manager) : Prop :=
  ∃ m' x reply, ReachesBy step (avoids process) m m' ∧ m'.threads[u]? = some x ∧ x.phase = .returned reply

theorem Completes.of_reaches (h : ReachesBy step (avoids process) m m') (h' : m'.Completes process u) :
    m.Completes process u := by
  obtain ⟨m'', x, reply, hrch, hx, hphase⟩ := h'
  exact ⟨m'', x, reply, h.trans hrch, hx, hphase⟩

theorem completes_of_returned {reply} (hx : m.threads[u]? = some x) (hphase : x.phase = .returned reply) :
    m.Completes process u := ⟨m, x, reply, .refl, hx, hphase⟩

theorem completes_of_unloading (hx : m.threads[u]? = some ⟨op, .unloading⟩) : m.Completes process u := by
  have hstep : m.step (.unload u) = some (m.setPhase u (.returned (.bool true))) := by simp [Manager.step, hx]
  exact .of_reaches (.of_step hstep rfl) (completes_of_returned (getElem?_setPhase hx _) rfl)

theorem completes_of_calling {p : Nat} (hx : m.threads[u]? = some ⟨op, .calling p site⟩) (hne : p ≠ process)
    (hsite : ∀ name os rest measured, site ≠ .allMetrics name os rest measured) : m.Completes process u := by
  have hstep : m.step (.finish u .timeout) = some (m.finish u p .timeout site) := by simp [Manager.step, hx]
  have hav : m.avoids process (.finish u .timeout) = true := by simp [Manager.avoids, hx, hne]
  refine .of_reaches (.of_step hstep hav) ?_
  cases site with
  | evaluate | metrics => exact completes_of_returned (getElem?_setPhase hx _) rfl
  | allMetrics name os rest measured => exact absurd rfl (hsite name os rest measured)
  | shutdown => exact completes_of_unloading (getElem?_setPhase hx _)

theorem Moved.completes {q} (h : Moved process u op m) (hmut : m.mutex = none)
    (hop : op.target? = some q) : m.Completes process u := by
  have hent : m.step (.enter u) = some (m.enter u op) := by simp [Manager.step, h.waiter, hmut]
  refine .of_reaches (.of_step hent rfl) ?_
  have hset : ∀ {m' : Manager} (phase : OpPhase), m'.threads = m.threads →
      (m'.setPhase u phase).threads[u]? = some ⟨op, phase⟩ := fun phase hm => getElem?_setPhase (hm ▸ h.waiter) phase
  have hne : ∀ {n p}, m.processes.get n = some p → p ≠ process := by
    rintro n p hn rfl
    exact h.moved n hn
  cases op with
  | evaluate pluginName script =>
    simp only [Manager.enter]
    split
    · exact completes_of_returned (hset _ rfl) rfl
    · next p hget => exact completes_of_calling (hset _ rfl) (hne hget) nofun
  | notifyFrontendLoaded pluginName | notifyChild pluginName method params =>
    simp only [Manager.enter]
    split <;> exact completes_of_returned (hset _ rfl) rfl
  | isAnyBackendRunning pluginName => exact completes_of_returned (hset _ rfl) rfl
  | destroyPlugin pluginName =>
    simp only [Manager.enter]
    split
    · exact completes_of_unloading (hset _ rfl)
    · next p hget => exact completes_of_calling (hset _ rfl) (hne hget) nofun
  | getPluginMetrics pluginName =>
    simp only [Manager.enter]
    split
    · exact completes_of_returned (hset _ rfl) rfl
    · next p hget => exact completes_of_calling (hset _ rfl) (hne hget) nofun
  | getAllPluginMetrics | hasAnyBackends | hasAllBackendsStopped | spawnPlugin => cases hop

theorem step_invoke {q} (hop : op.target? = some q) :
    m.step (.invoke op) = some { m with threads := m.threads ++ [⟨op, .waiting⟩] } := by
  cases op <;> first | rfl | cases hop

/-- While a call of a process is outstanding, an operation on a plugin can complete without the end of the call exactly if
the call is the one of `destroy_plugin`. -/
theorem others_complete_iff {es : List ManagerEvent} {op : ManagerOp} {q : String} (h : run step start es = some m)
    (hx : m.threads[t]? = some x) (hcall : x.phase = .calling process site) (hop : op.target? = some q) :
    (∃ m₁, m.step (.invoke op) = some m₁ ∧ m₁.Completes process m.threads.length) ↔ site = .shutdown := by
  have hinv := run_inv h
  have hinvo := step_invoke (m := m) hop
  have hok := hinv.threads hx
  rw [hcall] at hok
  have hlt := lt_of_getElem? hx
  have hinv₁ := hinv.step hinvo
  have hwtr : (m.threads ++ [⟨op, .waiting⟩])[m.threads.length]? = some ⟨op, .waiting⟩ := by simp
  constructor
  · rintro ⟨m₁, hm₁, m₂, y, reply, hrch, hy, hphase⟩
    cases hinvo.symm.trans hm₁
    by_contra hsite
    have hloc : site.locked = true := by cases site <;> first | rfl | exact absurd rfl hsite
    simp only [ThreadOk, hloc, if_true] at hok
    have hhung : Hung process t m.threads.length op { m with threads := m.threads ++ [⟨op, .waiting⟩] } :=
      ⟨hinv₁, hok.1, ⟨x, site, by rw [List.getElem?_append_left hlt, hx], hcall⟩, hwtr⟩
    have := hrch.preserves hhung fun hh hav he => hh.step hav he
    rw [this.waiter] at hy
    cases hy
    cases hphase
  · rintro rfl
    have hmov : Moved process m.threads.length op { m with threads := m.threads ++ [⟨op, .waiting⟩] } :=
      ⟨hinv₁, hok.2.2, hwtr⟩
    obtain ⟨m₂, hrch, hmov₂, hfree⟩ := hmov.exists_free
    exact ⟨_, hinvo, .of_reaches hrch (hmov₂.completes hfree hop)⟩

def destroyed : List ManagerEvent :=
  [.invoke (.spawnPlugin "p"), .spawned 0 true, .enter 0, .invoke (.spawnPlugin "q"), .spawned 1 true, .enter 1,
    .invoke (.destroyPlugin "p"), .enter 2]

theorem others_complete_destroyed : ∃ m x m₁, run step start destroyed = some m ∧ m.threads[2]? = some x ∧
    x.phase = .calling 0 .shutdown ∧ m.step (.invoke (.evaluate "q" .null)) = some m₁ ∧ m₁.Completes 0 3 := by
  have hrun : run step start destroyed = some ((run step start destroyed).get rfl) := rfl
  have hop : (ManagerOp.evaluate "q" .null).target? = some "q" := rfl
  obtain ⟨m₁, hm₁, hcom⟩ := (others_complete_iff hrun (t := 2) rfl rfl hop).2 rfl
  exact ⟨_, _, m₁, hrun, rfl, rfl, hm₁, hcom⟩

def evaluating : List ManagerEvent :=
  [.invoke (.spawnPlugin "p"), .spawned 0 true, .enter 0, .invoke (.spawnPlugin "q"), .spawned 1 true, .enter 1,
    .invoke (.evaluate "p" .null), .enter 2, .invoke (.isAnyBackendRunning "q")]

theorem evaluate_blocks_others : ∃ m x, run step start evaluating = some m ∧ m.threads[2]? = some x ∧
    x.phase = .calling 0 .evaluate ∧ ¬m.Completes 0 3 := by
  have hrun : run step start evaluating = some ((run step start evaluating).get rfl) := rfl
  refine ⟨_, _, hrun, rfl, rfl, ?_⟩
  rintro ⟨m', y, reply, hrch, hy, hphase⟩
  have hhung : Hung 0 2 3 (.isAnyBackendRunning "q") ((run step start evaluating).get rfl) :=
    ⟨run_inv hrun, rfl, ⟨_, _, rfl, rfl⟩, rfl⟩
  have := hrch.preserves hhung fun hh hav he => hh.step hav he
  rw [this.waiter] at hy
  cases hy
  cases hphase

end Manager

end CloudeLoader.BackendCalls
