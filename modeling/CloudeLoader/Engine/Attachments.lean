import CloudeLoader.Engine.TargetUrls
import CloudeLoader.Lib.Transition

/-!
# Attachments to targets (`plugin_webkit_world_mgr.cc`)

The events of a target are handled by the threads of the callback pool.
-/

namespace CloudeLoader.Engine.Attachments

open JsonDoc List

variable {ctl : NetworkHookCtl}

/-! ### Events -/

inductive TargetEvent where
  | created (params : Json)
  | changed (params : Json)
  | destroyed (params : Json)

namespace TargetEvent

def stringField (j : Json) (key : String) : Option String := (j.field? key).bind fun v => v.getString.toOption

def target? : TargetEvent → Option String
  | created params => (params.field? "targetInfo").bind fun info => stringField info "targetId"
  | changed params => (params.field? "targetInfo").bind fun info => stringField info "targetId"
  | destroyed params => stringField params "targetId"

def opens (e : TargetEvent) (id : String) : Bool :=
  match e with
  | destroyed _ => false
  | _ => e.target? = some id

def closes (e : TargetEvent) (id : String) : Bool :=
  match e with
  | destroyed _ => e.target? = some id
  | _ => false

end TargetEvent

open TargetEvent (stringField)

def admits (ctl : NetworkHookCtl) (url : String) : Bool :=
  match ctl.isValidTargetUrl (utf8 url) with
  | .ok b => b
  | .error _ => false

def createTarget (ctl : NetworkHookCtl) (params : Json) : Option String :=
  (params.field? "targetInfo").bind fun info =>
    match info.field? "canAccessOpener", info.field? "url", info.field? "targetId" with
    | some (.bool false), some (.str url), some (.str id) => if admits ctl url then some id else none
    | _, _, _ => none

def changeTarget (ctl : NetworkHookCtl) (params : Json) : Option String :=
  (params.field? "targetInfo").bind fun info =>
    (stringField info "targetId").bind fun id =>
      match info.field? "canAccessOpener" with
      | some v =>
        match v with
        | .bool false => if admits ctl ((stringField info "url").getD "") then some id else none
        | _ => none
      | none => if admits ctl ((stringField info "url").getD "") then some id else none

/-! ### The handlers -/

structure TargetContext where
  sessionId : String
  scriptId : String
  attaching : Bool
  deriving DecidableEq

structure WorldMgr where
  attachedTargets : String → Option TargetContext
  attachmentsInFlight : String → Bool
  shutdown : Bool

inductive ExposeStage where
  | binding
  | script
  | run
  deriving DecidableEq

/-- Where a handler is that attaches to a target: before it looks into the table, before and behind the guard with the number
of tests of `m_shutdown` that are left, in `attach_to_target`, or before it takes the guard back. -/
inductive Stage where
  | looking
  | guarding (checks : Nat)
  | guarded (checks : Nat)
  | entering
  | emplacing
  | calling
  | failing
  | storing (session : String)
  | exposing (session : String) (stage : ExposeStage)
  | releasing
  deriving DecidableEq

/-- What a handler does next: it reads its event, goes on, has the answers of the browser, or changes the identifier of a
script in the entry that its loop over the table finds. -/
inductive Move where
  | start (ctl : NetworkHookCtl)
  | next
  | answer (attach : Except String Json) (enabled : Bool) (frameTree : Except String Json)
  | clearScript (found : Option String)
  | saveScript (found : Option (String × String))

def attachedSession (attach : Except String Json) (enabled : Bool) (frameTree : Except String Json) : Option String :=
  match attach, frameTree with
  | .ok result, .ok tree =>
    if enabled && (tree.field? "frameTree").any (·.contains "frame") then stringField result "sessionId" else none
  | _, _ => none

namespace WorldMgr

def setTarget (s : WorldMgr) (id : String) (ctx : Option TargetContext) : WorldMgr :=
  { s with attachedTargets := Function.update s.attachedTargets id ctx }

def setInFlight (s : WorldMgr) (id : String) (b : Bool) : WorldMgr :=
  { s with attachmentsInFlight := Function.update s.attachmentsInFlight id b }

def start (s : WorldMgr) (ctl : NetworkHookCtl) : TargetEvent → WorldMgr × Option (String × Stage)
  | .created params =>
    match createTarget ctl params with
    | some id => if s.shutdown then (s, none) else (s, some (id, .guarding 1))
    | none => (s, none)
  | .changed params => (s, (changeTarget ctl params).map fun id => (id, .looking))
  | .destroyed params =>
    match stringField params "targetId" with
    | some id => (s.setTarget id none, none)
    | none => (s, none)

def withScript (s : WorldMgr) (id : String) (test : TargetContext → Bool) (script : String) : Option WorldMgr :=
  match s.attachedTargets id with
  | some ctx => if test ctx then some (s.setTarget id (some { ctx with scriptId := script })) else none
  | none => none

def advance (s : WorldMgr) (id : String) : Stage → Move → Option (WorldMgr × Option Stage)
  | .looking, .next =>
    if (s.attachedTargets id).any (·.sessionId ≠ "") then some (s, none) else some (s, some (.guarding 2))
  | .guarding checks, .next =>
    if s.attachmentsInFlight id then some (s, none) else some (s.setInFlight id true, some (.guarded checks))
  | .guarded 0, .next => some (s, some .entering)
  | .guarded (checks + 1), .next => some (s, some (if s.shutdown then .releasing else .guarded checks))
  | .entering, .next => some (s, some (if s.shutdown then .releasing else .emplacing))
  | .emplacing, .next =>
    match s.attachedTargets id with
    | none => some (s.setTarget id (some ⟨"", "", true⟩), some .calling)
    | some ctx =>
      if ctx.attaching || ctx.sessionId ≠ "" then some (s, some .releasing)
      else some (s.setTarget id (some { ctx with attaching := true }), some .calling)
  | .calling, .answer attach enabled frameTree =>
    match attachedSession attach enabled frameTree with
    | none => some (s, some .failing)
    | some session => some (s, some (.storing session))
  | .failing, .next =>
    some (s.setTarget id ((s.attachedTargets id).map fun ctx => { ctx with attaching := false }), some .releasing)
  | .storing session, .next => some (s.setTarget id (some ⟨session, "", false⟩), some (.exposing session .binding))
  | .exposing session .binding, .clearScript none => some (s, some (.exposing session .script))
  | .exposing session .binding, .clearScript (some other) =>
    (s.withScript other (fun ctx => ctx.sessionId = session && ctx.scriptId ≠ "") "").map fun s =>
      (s, some (.exposing session .script))
  | .exposing session .script, .saveScript none => some (s, some (.exposing session .run))
  | .exposing session .script, .saveScript (some (other, script)) =>
    (s.withScript other (fun ctx => ctx.sessionId = session) script).map fun s => (s, some (.exposing session .run))
  | .exposing _ _, .next => some (s, some .releasing)
  | .releasing, .next => some (s.setInFlight id false, none)
  | _, _ => none

end WorldMgr

/-! ### The callback pool -/

inductive Phase where
  | queued
  | running (id : String) (stage : Stage)
  | done
  deriving DecidableEq

structure EventTask where
  event : TargetEvent
  phase : Phase

/-- The manager and the handlers of all events so far, in the order of the browser. -/
structure Pool where
  mgr : WorldMgr
  tasks : List EventTask

inductive PoolStep where
  | arrive (event : TargetEvent)
  | shutDown
  | move (i : Nat) (m : Move)

def Phase.ofStage (id : String) : Option Stage → Phase
  | some stage => running id stage
  | none => done

namespace EventTask

def move (mgr : WorldMgr) (task : EventTask) (m : Move) : Option (WorldMgr × EventTask) :=
  match task.phase with
  | .queued =>
    match m with
    | .start ctl =>
      match mgr.start ctl task.event with
      | (mgr', some (id, stage)) => some (mgr', { task with phase := .running id stage })
      | (mgr', none) => some (mgr', { task with phase := .done })
    | _ => none
  | .running id stage =>
    (mgr.advance id stage m).map fun r => (r.1, { task with phase := .ofStage id r.2 })
  | .done => none

def isDone (task : EventTask) : Bool := task.phase = .done

end EventTask

namespace Pool

def initial : Pool := ⟨⟨fun _ => none, fun _ => false, false⟩, []⟩

def step (p : Pool) : PoolStep → Option Pool
  | .arrive event => some { p with tasks := p.tasks ++ [⟨event, .queued⟩] }
  | .shutDown => some { p with mgr := { p.mgr with shutdown := true } }
  | .move i m =>
    (p.tasks[i]?).bind fun task => (task.move p.mgr m).map fun r => ⟨r.1, p.tasks.set i r.2⟩

/-- No handler of an earlier event that may attach to the target is unfinished when the target's entry is removed. -/
def removesLast (p : Pool) : PoolStep → Bool
  | .move i _ =>
    (p.tasks[i]?).all fun task =>
      (p.tasks.take i).all fun earlier =>
        (task.event.target?).all fun id => !task.event.closes id || !earlier.event.opens id || earlier.isDone
  | _ => true

def finished (p : Pool) : Bool := p.tasks.all EventTask.isDone

end Pool

/-! ### What a step does -/

def Stage.holds : Stage → Bool
  | looking => false
  | guarding _ => false
  | _ => true

def Stage.attaches : Stage → Bool
  | entering | emplacing | calling | failing | storing _ | exposing _ _ => true
  | _ => false

theorem Stage.holds_of_attaches {stage : Stage} (h : stage.attaches = true) : stage.holds = true := by
  cases stage <;> simp_all [attaches, holds]

theorem TargetEvent.target?_of_opens {e : TargetEvent} {id : String} (h : e.opens id = true) : e.target? = some id := by
  cases e <;> simp_all [opens]

theorem TargetEvent.target?_of_closes {e : TargetEvent} {id : String} (h : e.closes id = true) : e.target? = some id := by
  cases e <;> simp_all [closes]

theorem TargetEvent.closes_of_opens {e : TargetEvent} {id other : String} (h : e.opens id = true) :
    e.closes other = false := by
  cases e with
  | created params => rfl
  | changed params => rfl
  | destroyed params => simp [opens] at h

theorem opens_of_createTarget {params id}
    (h : createTarget ctl params = some id) : (TargetEvent.created params).opens id = true := by
  obtain ⟨info, hinfo, h⟩ := Option.bind_eq_some_iff.mp h
  revert h
  split
  · rename_i url tid _ _ htid
    intro h
    split at h
    · simp_all [TargetEvent.opens, TargetEvent.target?, stringField, Json.getString, Except.toOption]
    · cases h
  · intro h
    cases h

theorem opens_of_changeTarget {params id}
    (h : changeTarget ctl params = some id) : (TargetEvent.changed params).opens id = true := by
  obtain ⟨info, hinfo, h⟩ := Option.bind_eq_some_iff.mp h
  obtain ⟨tid, htid, h⟩ := Option.bind_eq_some_iff.mp h
  have hid : tid = id := by
    revert h
    repeat' split
    all_goals simp
  subst hid
  simp [TargetEvent.opens, TargetEvent.target?, hinfo, htid]

namespace WorldMgr

variable {s s' : WorldMgr} {id other : String} {stage : Stage} {next : Option Stage} {m : Move}

theorem setTarget_attached {ctx} (h : (s.setTarget id ctx).attachedTargets other ≠ none) :
    s.attachedTargets other ≠ none ∨ other = id := by
  by_cases ho : other = id
  · exact Or.inr ho
  · simp only [setTarget, Function.update_of_ne ho] at h
    exact Or.inl h

theorem withScript_cases {test : TargetContext → Bool} {script} (h : s.withScript other test script = some s') :
    s'.attachmentsInFlight = s.attachmentsInFlight ∧ ∀ t, s'.attachedTargets t ≠ none → s.attachedTargets t ≠ none := by
  unfold withScript at h
  split at h
  · rename_i ctx hctx
    split at h <;> cases h
    refine ⟨rfl, fun t ht => ?_⟩
    rcases setTarget_attached ht with ht | rfl
    · exact ht
    · simp [hctx]
  · cases h

/-- What a step of a handler does to the guard: nothing, or it takes the guard for its target, or it gives it back. -/
inductive Guard (s s' : WorldMgr) (id : String) : Bool → Bool → Prop
  | keep {b : Bool} (h : s'.attachmentsInFlight = s.attachmentsInFlight) : Guard s s' id b b
  | take (hfree : s.attachmentsInFlight id = false)
      (h : s'.attachmentsInFlight = Function.update s.attachmentsInFlight id true) : Guard s s' id false true
  | giveBack (h : s'.attachmentsInFlight = Function.update s.attachmentsInFlight id false) : Guard s s' id true false

theorem script_cases {test : TargetContext → Bool} {script after} (haft : after.holds = true)
    (h : (s.withScript other test script).map (fun s => (s, some after)) = some (s', next)) :
    Guard s s' id true (next.any Stage.holds) ∧
      ∀ t, s'.attachedTargets t ≠ none → s.attachedTargets t ≠ none ∨ t = id := by
  obtain ⟨u, hu, he⟩ := Option.map_eq_some_iff.mp h
  cases he
  have hcas := withScript_cases hu
  rw [Option.any_some, haft]
  exact ⟨.keep hcas.1, fun t ht => Or.inl (hcas.2 t ht)⟩

theorem advance_cases (h : s.advance id stage m = some (s', next)) :
    Guard s s' id stage.holds (next.any Stage.holds) ∧
      ∀ t, s'.attachedTargets t ≠ none → s.attachedTargets t ≠ none ∨ t = id := by
  -- most steps leave the guard and the table alone, or write the entry of the target
  have hsame : ∀ {b}, Guard s s id b b ∧ ∀ t, s.attachedTargets t ≠ none → s.attachedTargets t ≠ none ∨ t = id :=
    ⟨.keep rfl, fun _ => Or.inl⟩
  have hset : ∀ {b ctx}, Guard s (s.setTarget id ctx) id b b ∧
      ∀ t, (s.setTarget id ctx).attachedTargets t ≠ none → s.attachedTargets t ≠ none ∨ t = id :=
    ⟨.keep rfl, fun _ => setTarget_attached⟩
  cases stage with
  | looking | calling =>
    cases m <;> simp only [advance, reduceCtorEq] at h
    split at h <;> (cases h; exact hsame)
  | guarding checks =>
    cases m <;> simp only [advance, reduceCtorEq] at h
    split at h <;> cases h
    · exact hsame
    · next hfree => exact ⟨.take (by simpa using hfree) rfl, fun _ => Or.inl⟩
  | guarded checks =>
    cases checks with
    | zero =>
      cases m <;> simp only [advance, reduceCtorEq] at h
      cases h
      exact hsame
    | succ checks =>
      cases m <;> simp only [advance, reduceCtorEq] at h
      cases hs : s.shutdown <;> (simp only [hs] at h; cases h; exact hsame)
  | entering =>
    cases m <;> simp only [advance, reduceCtorEq] at h
    cases hs : s.shutdown <;> (simp only [hs] at h; cases h; exact hsame)
  | emplacing =>
    cases m <;> simp only [advance, reduceCtorEq] at h
    split at h
    · cases h
      exact hset
    · split at h <;> cases h
      · exact hsame
      · exact hset
  | failing | storing =>
    cases m <;> simp only [advance, reduceCtorEq] at h
    cases h
    exact hset
  | exposing session stage =>
    cases m with
    | next =>
      have hnext : some (s, some Stage.releasing) = some (s', next) := by
        cases stage <;> simpa only [advance] using h
      cases hnext
      exact hsame
    | clearScript found =>
      cases stage <;> cases found <;> simp only [advance, reduceCtorEq] at h
      · cases h
        exact hsame
      · exact script_cases rfl h
    | saveScript found =>
      cases stage <;> rcases found with _ | ⟨_, _⟩ <;> simp only [advance, reduceCtorEq] at h
      · cases h
        exact hsame
      · exact script_cases rfl h
    | start ctl => cases stage <;> simp only [advance, reduceCtorEq] at h
    | answer attach enabled frameTree => cases stage <;> simp only [advance, reduceCtorEq] at h
  | releasing =>
    cases m <;> simp only [advance, reduceCtorEq] at h
    cases h
    exact ⟨.giveBack rfl, fun t ht => Or.inl ht⟩

/-- The first part of a handler does not touch the guard and makes no entry; it removes the one of a destroyed target. -/
structure Starts (s s' : WorldMgr) (e : TargetEvent) (next : Option (String × Stage)) : Prop where
  inFlight : s'.attachmentsInFlight = s.attachmentsInFlight
  opens : ∀ id stage, next = some (id, stage) → e.opens id = true ∧ stage.holds = false
  kept : ∀ id, s'.attachedTargets id ≠ none → s.attachedTargets id ≠ none
  removed : ∀ id, e.closes id = true → s'.attachedTargets id = none

theorem starts (s : WorldMgr) (ctl : NetworkHookCtl) (e : TargetEvent) :
    Starts s (s.start ctl e).1 e (s.start ctl e).2 := by
  cases e with
  | created params =>
    cases ht : createTarget ctl params with
    | none => exact ⟨by simp [start, ht], by simp [start, ht], by simp [start, ht], by simp [TargetEvent.closes]⟩
    | some id =>
      have hopn := opens_of_createTarget ht
      refine ⟨?_, ?_, ?_, by simp [TargetEvent.closes]⟩
      · cases hs : s.shutdown <;> simp [start, ht, hs]
      · intro id' stage h
        cases hs : s.shutdown
        · simp only [start, ht, hs, Bool.false_eq_true, if_false, Option.some.injEq, Prod.mk.injEq] at h
          obtain ⟨rfl, rfl⟩ := h
          exact ⟨hopn, rfl⟩
        · simp [start, ht, hs] at h
      · cases hs : s.shutdown <;> simp [start, ht, hs]
  | changed params =>
    refine ⟨rfl, ?_, fun id h => h, by simp [TargetEvent.closes]⟩
    intro id stage h
    obtain ⟨id', ht, he⟩ := Option.map_eq_some_iff.mp h
    cases he
    exact ⟨opens_of_changeTarget ht, rfl⟩
  | destroyed params =>
    cases ht : stringField params "targetId" with
    | none => exact ⟨by simp [start, ht], by simp [start, ht], by simp [start, ht],
        by simp [TargetEvent.closes, TargetEvent.target?, ht]⟩
    | some id =>
      refine ⟨by simp [start, ht, setTarget], by simp [start, ht], ?_, ?_⟩
      · intro other h
        simp only [start, ht] at h
        rcases setTarget_attached h with h | rfl
        · exact h
        · simp [setTarget] at h
      · intro other h
        obtain rfl : id = other := by simpa [TargetEvent.closes, TargetEvent.target?, ht] using h
        simp [start, ht, setTarget]

end WorldMgr

namespace EventTask

variable {mgr mgr' : WorldMgr} {task task' : EventTask} {id : String} {m : Move}

def holds (task : EventTask) (id : String) : Bool :=
  match task.phase with
  | .running own stage => own = id && stage.holds
  | _ => false

def attaches (task : EventTask) (id : String) : Bool :=
  match task.phase with
  | .running own stage => own = id && stage.attaches
  | _ => false

def Owned (task : EventTask) : Prop := ∀ id stage, task.phase = .running id stage → task.event.opens id = true

theorem holds_of_attaches (h : task.attaches id = true) : task.holds id = true := by
  unfold attaches at h
  unfold holds
  split at h
  · simp only [Bool.and_eq_true] at h ⊢
    exact ⟨h.1, Stage.holds_of_attaches h.2⟩
  · cases h

structure Moves (mgr mgr' : WorldMgr) (task task' : EventTask) : Prop where
  event : task'.event = task.event
  unfinished : task.isDone = false
  owned : task'.Owned
  guard : ∃ own b b', WorldMgr.Guard mgr mgr' own b b' ∧ (∀ id, task.holds id = (own = id && b)) ∧
    ∀ id, task'.holds id = (own = id && b')
  made : ∀ id, mgr'.attachedTargets id ≠ none → mgr.attachedTargets id ≠ none ∨ task.event.opens id = true
  removed : ∀ id, task.event.closes id = true → mgr'.attachedTargets id = none

theorem moves_of_start (hq : task.phase = .queued)
    (h : task.move mgr (.start ctl) = some (mgr', task')) : Moves mgr mgr' task task' := by
  have hs := mgr.starts ctl task.event
  obtain ⟨u, next, hr⟩ : ∃ u next, mgr.start ctl task.event = (u, next) := ⟨_, _, rfl⟩
  rw [hr] at hs
  have hbef : ∀ id, task.holds id = false := by
    intro id
    simp [holds, hq]
  simp only [move, hq, hr] at h
  rcases next with _ | ⟨own, stage⟩
  · cases h
    exact ⟨rfl, by simp [isDone, hq], by simp [Owned],
      ⟨"", false, false, .keep hs.inFlight, by simpa using hbef, by simp [holds]⟩,
      fun id h => Or.inl (hs.kept id h), hs.removed⟩
  · cases h
    obtain ⟨hopn, hhol⟩ := hs.opens own stage rfl
    refine ⟨rfl, by simp [isDone, hq], ?_,
      ⟨own, false, false, .keep hs.inFlight, by simpa using hbef, by simp [holds, hhol]⟩,
      fun id h => Or.inl (hs.kept id h), hs.removed⟩
    intro id stage' h
    cases h
    exact hopn

theorem moves_of_advance {own : String} {stage : Stage} (ho : task.Owned) (hr : task.phase = .running own stage)
    (h : task.move mgr m = some (mgr', task')) : Moves mgr mgr' task task' := by
  have hopn := ho own stage hr
  simp only [move, hr] at h
  obtain ⟨⟨u, next⟩, hadv, he⟩ := Option.map_eq_some_iff.mp h
  cases he
  obtain ⟨hgrd, hmade⟩ := WorldMgr.advance_cases hadv
  refine ⟨rfl, by simp [isDone, hr], ?_, ⟨own, _, _, hgrd, by simp [holds, hr], ?_⟩, ?_, ?_⟩
  · intro id stage' h
    cases next with
    | none => cases h
    | some after =>
      cases h
      exact hopn
  · intro id
    cases next <;> simp [holds, Phase.ofStage]
  · intro id h
    rcases hmade id h with h | rfl
    · exact Or.inl h
    · exact Or.inr hopn
  · intro id h
    rw [TargetEvent.closes_of_opens hopn] at h
    cases h

theorem moves_of_move (ho : task.Owned) (h : task.move mgr m = some (mgr', task')) : Moves mgr mgr' task task' := by
  cases hp : task.phase with
  | queued =>
    cases m with
    | start ctl => exact moves_of_start hp h
    | _ => simp [move, hp] at h
  | running own stage => exact moves_of_advance ho hp h
  | done => simp [move, hp] at h

end EventTask

/-! ### Runs of the pool -/

namespace Pool

open Transition

variable {p p' : Pool} {e : PoolStep} {es : List PoolStep} {i j : Nat} {id : String}

/-- One handler at a time has the guard for a target, and `m_attachments_in_flight` says so. -/
structure Guarded (p : Pool) : Prop where
  owned : ∀ (i : Nat) (task : EventTask), p.tasks[i]? = some task → task.Owned
  inFlight : ∀ (i : Nat) (task : EventTask) id, p.tasks[i]? = some task → task.holds id = true →
    p.mgr.attachmentsInFlight id = true
  unique : ∀ (i j : Nat) (a b : EventTask) id, p.tasks[i]? = some a → p.tasks[j]? = some b →
    a.holds id = true → b.holds id = true → i = j

structure Follows (p : Pool) : Prop where
  ordered : ∀ (j k : Nat) (a b : EventTask) id, j < k → p.tasks[j]? = some a → p.tasks[k]? = some b →
    a.event.opens id = true → b.event.closes id = true → b.isDone = true → a.isDone = true
  present : ∀ id, p.mgr.attachedTargets id ≠ none → ∃ j : Nat, ∃ a : EventTask, p.tasks[j]? = some a ∧
    a.event.opens id = true ∧ ∀ (k : Nat) (b : EventTask), j < k → p.tasks[k]? = some b → b.event.closes id = true → b.isDone = false

theorem move_cases {m} (h : p.step (.move i m) = some p') :
    ∃ task task', p.tasks[i]? = some task ∧ task.move p.mgr m = some (p'.mgr, task') ∧ p'.tasks = p.tasks.set i task' := by
  obtain ⟨task, htask, h⟩ := Option.bind_eq_some_iff.mp h
  obtain ⟨⟨mgr', task'⟩, hmove, rfl⟩ := Option.map_eq_some_iff.mp h
  exact ⟨task, task', htask, hmove, rfl⟩

theorem Guarded.arrive (hp : p.Guarded) (event : TargetEvent) :
    Guarded { p with tasks := p.tasks ++ [⟨event, .queued⟩] } := by
  have hnew : ∀ id, (⟨event, .queued⟩ : EventTask).holds id = false := fun _ => rfl
  refine ⟨?_, ?_, ?_⟩
  · intro i task hi
    rcases getElem?_arrive hi with hi | ⟨-, rfl⟩
    · exact hp.owned i task hi
    · intro id stage h
      cases h
  · intro i task id hi hh
    rcases getElem?_arrive hi with hi | ⟨-, rfl⟩
    · exact hp.inFlight i task id hi hh
    · simp [hnew] at hh
  · intro i j a b id hi hj ha hb
    rcases getElem?_arrive hi with hi | ⟨-, rfl⟩
    · rcases getElem?_arrive hj with hj | ⟨-, rfl⟩
      · exact hp.unique i j a b id hi hj ha hb
      · simp [hnew] at hb
    · simp [hnew] at ha

theorem Guarded.move {task task' : EventTask} {m : Move} (hp : p.Guarded) (hi : p.tasks[i]? = some task)
    (hmove : task.move p.mgr m = some (p'.mgr, task')) (htas : p'.tasks = p.tasks.set i task') : p'.Guarded := by
  have hm := EventTask.moves_of_move (hp.owned i task hi) hmove
  obtain ⟨own, b, b', hgrd, hbef, haft⟩ := hm.guard
  -- Another handler than the moved one has the guard before the step too.
  have hoth : ∀ {j : Nat} {a : EventTask} {id}, p'.tasks[j]? = some a → a.holds id = true →
      (j = i ∧ own = id ∧ b' = true) ∨ (j ≠ i ∧ p.tasks[j]? = some a) := by
    intro j a id hj ha
    rw [htas] at hj
    rcases getElem?_move hi hj with ⟨rfl, rfl⟩ | hj
    · exact Or.inl ⟨rfl, by simpa [haft] using ha⟩
    · exact Or.inr hj
  have hfree : ∀ {j : Nat} {a : EventTask}, b' = true → j ≠ i → p.tasks[j]? = some a → a.holds own = false := by
    intro j a hb' hji hj
    by_contra ha
    rw [Bool.not_eq_false] at ha
    cases hgrd with
    | keep _ => exact hji (hp.unique j i a task own hj hi ha (by simp [hbef, hb']))
    | take hfree _ => simp [hp.inFlight j a own hj ha] at hfree
    | giveBack _ => cases hb'
  refine ⟨?_, ?_, ?_⟩
  · intro j a hj
    rw [htas] at hj
    rcases getElem?_move hi hj with ⟨rfl, rfl⟩ | ⟨-, hj⟩
    · exact hm.owned
    · exact hp.owned j a hj
  · intro j a id hj ha
    rcases hoth hj ha with ⟨rfl, rfl, hb'⟩ | ⟨hji, hj⟩
    · cases hgrd with
      | keep h => rw [h]; exact hp.inFlight j task own hi (by simp [hbef, hb'])
      | take _ h => simp [h]
      | giveBack _ => cases hb'
    · have hid := hp.inFlight j a id hj ha
      cases hgrd with
      | keep h => rw [h]; exact hid
      | take _ h => by_cases ho : id = own <;> simp [h, Function.update, ho, hid]
      | giveBack h =>
        have ho : id ≠ own := by
          rintro rfl
          exact hji (hp.unique j i a task id hj hi ha (by simp [hbef]))
        simp [h, Function.update, ho, hid]
  · intro j k a c id hj hk ha hc
    rcases hoth hj ha with ⟨rfl, rfl, hb'⟩ | ⟨hji, hj⟩
    · rcases hoth hk hc with ⟨rfl, -, -⟩ | ⟨hkj, hk⟩
      · rfl
      · simp [hfree hb' hkj hk] at hc
    · rcases hoth hk hc with ⟨rfl, rfl, hb'⟩ | ⟨-, hk⟩
      · simp [hfree hb' hji hj] at ha
      · exact hp.unique j k a c id hj hk ha hc

theorem Guarded.step (hp : p.Guarded) (h : p.step e = some p') : p'.Guarded := by
  cases e with
  | arrive event =>
    cases h
    exact hp.arrive event
  | shutDown =>
    cases h
    exact ⟨hp.owned, hp.inFlight, hp.unique⟩
  | move i m =>
    obtain ⟨task, task', hi, hmove, htas⟩ := move_cases h
    exact hp.move hi hmove htas

theorem removesLast_move {m : Move} {task a : EventTask} (h : p.removesLast (.move i m) = true) (hi : p.tasks[i]? = some task)
    (hji : j < i) (hj : p.tasks[j]? = some a) (hopn : a.event.opens id = true) (hcls : task.event.closes id = true) :
    a.isDone = true := by
  have ha : a ∈ p.tasks.take i := mem_of_getElem? (by rw [getElem?_take_of_lt hji]; exact hj)
  simp only [removesLast, hi, Option.all_some, all_eq_true] at h
  simpa [TargetEvent.target?_of_closes hcls, hcls, hopn] using h a ha

theorem Follows.arrive (hp : p.Follows) (event : TargetEvent) :
    Follows { p with tasks := p.tasks ++ [⟨event, .queued⟩] } := by
  refine ⟨?_, ?_⟩
  · intro j k a b id hjk hj hk hopn hcls hdone
    rcases getElem?_arrive hk with hk | ⟨-, rfl⟩
    · rcases getElem?_arrive hj with hj | ⟨rfl, -⟩
      · exact hp.ordered j k a b id hjk hj hk hopn hcls hdone
      · have := lt_of_getElem? hk
        omega
    · cases hdone
  · intro id hid
    obtain ⟨j, a, hj, hopn, hlat⟩ := hp.present id hid
    refine ⟨j, a, ?_, hopn, ?_⟩
    · rw [List.getElem?_append_left (lt_of_getElem? hj)]
      exact hj
    · intro k b hjk hk hcls
      rcases getElem?_arrive hk with hk | ⟨-, rfl⟩
      · exact hlat k b hjk hk hcls
      · rfl

theorem Follows.move {task task' : EventTask} {m : Move} (hg : p.Guarded) (hp : p.Follows)
    (hok : p.removesLast (.move i m) = true) (hi : p.tasks[i]? = some task)
    (hmove : task.move p.mgr m = some (p'.mgr, task')) (htas : p'.tasks = p.tasks.set i task') : p'.Follows := by
  have hm := EventTask.moves_of_move (hg.owned i task hi) hmove
  have hself : p'.tasks[i]? = some task' := by
    rw [htas, List.getElem?_set_self (lt_of_getElem? hi)]
  refine ⟨?_, ?_⟩
  · intro j k a b id hjk hj hk hopn hcls hdone
    rw [htas] at hj hk
    rcases getElem?_move hi hk with ⟨rfl, rfl⟩ | ⟨-, hk'⟩
    · -- The removal itself is the step.
      rcases getElem?_move hi hj with ⟨rfl, -⟩ | ⟨-, hj⟩
      · omega
      · exact removesLast_move hok hi hjk hj hopn (hm.event ▸ hcls)
    · rcases getElem?_move hi hj with ⟨rfl, rfl⟩ | ⟨-, hj⟩
      · have := hp.ordered j k task b id hjk hi hk' (hm.event ▸ hopn) hcls hdone
        simp [hm.unfinished] at this
      · exact hp.ordered j k a b id hjk hj hk' hopn hcls hdone
  · intro id hid
    rcases hm.made id hid with hbef | hopn
    · have hno : task.event.closes id ≠ true := fun hc => hid (hm.removed id hc)
      obtain ⟨j, a, hj, hopn, hlat⟩ := hp.present id hbef
      have hlat' : ∀ (k : Nat) (b : EventTask), j < k → p'.tasks[k]? = some b → b.event.closes id = true →
          b.isDone = false := by
        intro k b hjk hk hcls
        rw [htas] at hk
        rcases getElem?_move hi hk with ⟨rfl, rfl⟩ | ⟨-, hk⟩
        · exact absurd (hm.event ▸ hcls) hno
        · exact hlat k b hjk hk hcls
      by_cases hji : j = i
      · subst hji
        obtain rfl : task = a := Option.some.inj (hi.symm.trans hj)
        exact ⟨j, task', hself, hm.event ▸ hopn, hlat'⟩
      · refine ⟨j, a, ?_, hopn, hlat'⟩
        rw [htas, getElem?_set_ne (Ne.symm hji)]
        exact hj
    · refine ⟨i, task', hself, hm.event ▸ hopn, ?_⟩
      intro k b hik hk hcls
      rw [htas] at hk
      rcases getElem?_move hi hk with ⟨rfl, -⟩ | ⟨-, hk⟩
      · omega
      · by_contra hdone
        have := hp.ordered i k task b id hik hi hk hopn hcls (by simpa using hdone)
        simp [hm.unfinished] at this

theorem Follows.step (hg : p.Guarded) (hp : p.Follows) (hok : p.removesLast e = true) (h : p.step e = some p') :
    p'.Follows := by
  cases e with
  | arrive event =>
    cases h
    exact hp.arrive event
  | shutDown =>
    cases h
    exact ⟨hp.ordered, hp.present⟩
  | move i m =>
    obtain ⟨task, task', hi, hmove, htas⟩ := move_cases h
    exact Follows.move hg hp hok hi hmove htas

theorem initial_guarded : initial.Guarded := by
  refine ⟨?_, ?_, ?_⟩ <;> simp [initial]

theorem initial_follows : initial.Follows := by
  refine ⟨?_, ?_⟩ <;> simp [initial]

theorem guarded_of_run (h : run step initial es = some p) : p.Guarded :=
  run_induction (P := fun _ p => p.Guarded) initial_guarded (fun _ hp hstep => hp.step hstep) h

theorem follows_of_run (h : run step initial es = some p) (hok : along step removesLast initial es = true) : p.Follows := by
  refine run_induction (P := fun es p => along step removesLast initial es = true → p.Follows) ?_ ?_ h hok
  · exact fun _ => initial_follows
  · intro es t e t' hrun ih hstep hok
    rw [along_concat hrun, Bool.and_eq_true] at hok
    exact Follows.step (guarded_of_run hrun) (ih hok.1) hok.2 hstep

def DestroyedLast (p : Pool) (id : String) : Prop :=
  ∃ k : Nat, ∃ b : EventTask, p.tasks[k]? = some b ∧ b.event.closes id = true ∧
    ∀ (j : Nat) (a : EventTask), k < j → p.tasks[j]? = some a → a.event.target? ≠ some id

theorem attaches_unique {a b} (h : run step initial es = some p) (hi : p.tasks[i]? = some a)
    (hj : p.tasks[j]? = some b) (ha : a.attaches id = true) (hb : b.attaches id = true) : i = j :=
  (guarded_of_run h).unique i j a b id hi hj (EventTask.holds_of_attaches ha) (EventTask.holds_of_attaches hb)

theorem Follows.removed (hp : p.Follows) (hfin : p.finished = true) (hlast : p.DestroyedLast id) :
    p.mgr.attachedTargets id = none := by
  by_contra hid
  obtain ⟨j, a, hj, hopn, hlat⟩ := hp.present id hid
  obtain ⟨k, b, hk, hcls, hlast⟩ := hlast
  have hdone : b.isDone = true := all_eq_true.mp hfin b (mem_of_getElem? hk)
  rcases Nat.lt_trichotomy j k with hjk | rfl | hkj
  · rw [hlat k b hjk hk hcls] at hdone
    cases hdone
  · obtain rfl : a = b := Option.some.inj (hj.symm.trans hk)
    rw [TargetEvent.closes_of_opens hopn] at hcls
    cases hcls
  · exact hlast j a hkj hj (TargetEvent.target?_of_opens hopn)

/-- At most one `attach_to_target` runs for a target, and when all handlers have finished there is no entry for a target
whose last event was that it is destroyed, if no entry is removed while an earlier handler of its target is unfinished. -/
theorem attachments_follow (h : run step initial es = some p) (hok : along step removesLast initial es = true) :
    (∀ (i j : Nat) (a b : EventTask) (id : String), p.tasks[i]? = some a → p.tasks[j]? = some b →
      a.attaches id = true → b.attaches id = true → i = j) ∧
    (p.finished = true → ∀ id, p.DestroyedLast id → p.mgr.attachedTargets id = none) :=
  ⟨fun _ _ _ _ _ hi hj ha hb => attaches_unique h hi hj ha hb,
    fun hfin _ hlast => (follows_of_run h hok).removed hfin hlast⟩

def storePage : TargetEvent :=
  .created (.obj [("targetInfo", .obj [("targetId", .str "T"), ("url", .str "https://store.steampowered.com/"),
    ("canAccessOpener", .bool false)])])

def storePageClosed : TargetEvent := .destroyed (.obj [("targetId", .str "T")])

def refused (i : Nat) : List PoolStep :=
  [.move i .next, .move i .next, .move i .next, .move i .next, .move i .next,
    .move i (.answer (.error "No target with given id found") false (.error "")), .move i .next, .move i .next]

def closedBehind : List PoolStep :=
  [.arrive storePage, .arrive storePageClosed, .move 0 (.start hookless)] ++ refused 0 ++ [.move 1 (.start hookless)]

def closedBetween : List PoolStep :=
  [.arrive storePage, .arrive storePageClosed, .move 0 (.start hookless), .move 1 (.start hookless)] ++ refused 0

def storePageDone (p : Pool) : Bool :=
  p.finished && decide (p.tasks.length = 2) && (p.tasks[1]?).any fun b => b.event.closes "T"

theorem destroyedLast_of_storePageDone (h : p.storePageDone = true) : p.finished = true ∧ p.DestroyedLast "T" := by
  simp only [storePageDone, Bool.and_eq_true, decide_eq_true_eq, Option.any_eq_true] at h
  obtain ⟨⟨hfin, hlen⟩, b, hb, hcls⟩ := h
  refine ⟨hfin, 1, b, hb, hcls, ?_⟩
  intro j a hj ha
  have := lt_of_getElem? ha
  omega

theorem attachments_follow_closedBehind :
    ∃ p, run step initial closedBehind = some p ∧ p.finished = true ∧ p.DestroyedLast "T" ∧
      p.mgr.attachedTargets "T" = none := by
  have hrun : (run step initial closedBehind).any storePageDone = true := by decide +kernel
  obtain ⟨p, hp, hdone⟩ := (Option.any_eq_true _ _).mp hrun
  obtain ⟨hfin, hlast⟩ := destroyedLast_of_storePageDone hdone
  exact ⟨p, hp, hfin, hlast, (attachments_follow hp (by decide +kernel)).2 hfin "T" hlast⟩

theorem entry_outlives_target :
    ∃ p, run step initial closedBetween = some p ∧ p.finished = true ∧ p.DestroyedLast "T" ∧
      p.mgr.attachedTargets "T" ≠ none := by
  have hrun : (run step initial closedBetween).any
      (fun p => p.storePageDone && (p.mgr.attachedTargets "T").isSome) = true := by decide +kernel
  obtain ⟨p, hp, h⟩ := (Option.any_eq_true _ _).mp hrun
  rw [Bool.and_eq_true] at h
  obtain ⟨hfin, hlast⟩ := destroyedLast_of_storePageDone h.1
  exact ⟨p, hp, hfin, hlast, Option.isSome_iff_ne_none.mp h.2⟩

end Pool

end CloudeLoader.Engine.Attachments
