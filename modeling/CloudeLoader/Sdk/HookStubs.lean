import CloudeLoader.Lib.Transition

/-!
# Stubs for the hooks of React (`sdk/packages/client/src/utils/react/react.ts`)

`fakeRenderComponent` calls a component between `applyHookStubs` and `removeHookStubs`, which keep the hooks of the dispatcher
in one variable.
-/

namespace CloudeLoader.HookStubs

open Transition

/-- The fields of the dispatcher: the hooks that are saved, and others. -/
inductive HookField
  | useContext
  | useCallback
  | useLayoutEffect
  | useEffect
  | useMemo
  | useRef
  | useState
  | other (name : String)
  deriving DecidableEq

def HookField.isSaved : HookField → Bool
  | .other _ => false
  | _ => true

variable {V : Type}

/-- The values of fields: which of them count as true, and the stubs, which are functions and do. -/
structure Values (V : Type) where
  truthy : V → Bool
  stubs : HookField → V
  truthy_stubs : ∀ field, truthy (stubs field) = true

/-- What `getReactInternals` looks through: the object `ReactCurrentDispatcher.current`, if there is one, and the objects that
are values of the internals, in their order. -/
structure Internals where
  current : Option Nat
  modules : List Nat

/-- The fields of the objects, the hooks that were saved (`none` for the empty object), and how many components are being
rendered. -/
structure Dispatcher (V : Type) where
  objects : Nat → HookField → V
  oldHooks : Option (HookField → V)
  depth : Nat

/-- The calls, and what a component does: it throws, or it writes a field of an object.  A member of `customHooks` comes with
its value, or with `none` if it is a getter that throws. -/
inductive HookCall (V : Type)
  | applyHookStubs (customHooks : List (HookField × Option V))
  | removeHookStubs
  | componentThrows
  | componentWrites (object : Nat) (field : HookField) (value : V)

def Values.isDispatcher (vs : Values V) (fields : HookField → V) : Bool :=
  vs.truthy (fields .useEffect) && vs.truthy (fields .useContext) && vs.truthy (fields .useRef) &&
    vs.truthy (fields .useState)

def Internals.getReactInternals (r : Internals) (vs : Values V) (objects : Nat → HookField → V) : Option Nat :=
  match r.current with
  | some o => some o
  | none => r.modules.find? fun o => vs.isDispatcher (objects o)

/-- `Object.assign(hooks, customHooks)`, and whether it returns. -/
def assign (hooks : HookField → V) : List (HookField × Option V) → (HookField → V) × Bool
  | [] => (hooks, true)
  | (_, none) :: _ => (hooks, false)
  | (field, some value) :: rest => assign (Function.update hooks field value) rest

def Values.stubbed (vs : Values V) (hooks : HookField → V) : HookField → V :=
  fun field => if field.isSaved then vs.stubs field else hooks field

def restored (old : Option (HookField → V)) (hooks : HookField → V) : HookField → V :=
  fun field => if field.isSaved then (old.getD hooks) field else hooks field

namespace Dispatcher

/-- Without a dispatcher both functions throw a `TypeError`: the first one before it has done anything, the second one before
it has restored anything. -/
def step (vs : Values V) (r : Internals) (s : Dispatcher V) : HookCall V → Option (Dispatcher V)
  | .applyHookStubs customHooks =>
    match r.getReactInternals vs s.objects with
    | none => some s
    | some o =>
      let (hooks, returns) := assign (vs.stubbed (s.objects o)) customHooks
      some {
        objects := Function.update s.objects o hooks
        oldHooks := some (s.objects o)
        depth := if returns then s.depth + 1 else s.depth }
  | .removeHookStubs =>
    if s.depth = 0 then none
    else
      match r.getReactInternals vs s.objects with
      | none => some { s with depth := s.depth - 1 }
      | some o => some {
          objects := Function.update s.objects o (restored s.oldHooks (s.objects o))
          oldHooks := none
          depth := s.depth - 1 }
  | .componentThrows => if s.depth = 0 then none else some { s with depth := s.depth - 1 }
  | .componentWrites o field value =>
    if s.depth = 0 then none
    else some { s with objects := Function.update s.objects o (Function.update (s.objects o) field value) }

/-- No component renders another one or throws, and custom hooks and components give values that count as true to fields of the
dispatcher that are saved, and to no others. -/
def plain (vs : Values V) (r : Internals) (s : Dispatcher V) : HookCall V → Bool
  | .applyHookStubs customHooks => s.depth = 0 && customHooks.all fun x => x.1.isSaved && x.2.any vs.truthy
  | .removeHookStubs => true
  | .componentThrows => false
  | .componentWrites o field value =>
    r.getReactInternals vs s.objects = some o && field.isSaved && vs.truthy value

/-- The hooks of a dispatcher during a rendering: those that are saved count as true, the others are kept. -/
def Stubbed (vs : Values V) (hooks hooks' : HookField → V) : Prop :=
  ∀ field, if field.isSaved then vs.truthy (hooks' field) = true else hooks' field = hooks field

/-- Nothing is rendered and the fields are the first ones, or the dispatcher has stubs and its hooks were saved. -/
def Inv (vs : Values V) (r : Internals) (objects : Nat → HookField → V) (s : Dispatcher V) : Prop :=
  s.depth = 0 ∧ s.objects = objects ∨
    s.depth = 1 ∧ ∃ o hooks, r.getReactInternals vs objects = some o ∧ s.oldHooks = some (objects o) ∧
      s.objects = Function.update objects o hooks ∧ Stubbed vs (objects o) hooks

section Steps

variable {vs : Values V} {r : Internals} {objects : Nat → HookField → V} {o : Nat} {hooks hooks' : HookField → V}

/-- The dispatcher is found again as long as the hooks by which it is found count as true. -/
theorem getReactInternals_update (h : r.getReactInternals vs objects = some o) (hst : Stubbed vs (objects o) hooks) :
    r.getReactInternals vs (Function.update objects o hooks) = some o := by
  unfold Internals.getReactInternals at h ⊢
  cases hcur : r.current with
  | some c => simpa [hcur] using h
  | none =>
    simp only [hcur] at h ⊢
    refine Eq.trans (congrArg (fun p => r.modules.find? p) (funext fun x => ?_)) h
    by_cases hx : x = o
    · subst hx
      have hnew : vs.isDispatcher hooks = true := by
        simp only [Values.isDispatcher, Bool.and_eq_true]
        exact ⟨⟨⟨hst .useEffect, hst .useContext⟩, hst .useRef⟩, hst .useState⟩
      rw [Function.update_self, hnew, List.find?_some h]
    · rw [Function.update_of_ne hx]

theorem Stubbed.update (h : Stubbed vs hooks hooks') {field : HookField} {value : V} (hf : field.isSaved = true)
    (hv : vs.truthy value = true) : Stubbed vs hooks (Function.update hooks' field value) := by
  intro x
  by_cases hx : x = field
  · subst hx
    simpa [hf] using hv
  · rw [Function.update_of_ne hx]
    exact h x

theorem Stubbed.assign (h : Stubbed vs hooks hooks') {customHooks : List (HookField × Option V)}
    (hall : ∀ x ∈ customHooks, (x.1.isSaved && x.2.any vs.truthy) = true) :
    ∃ hooks'', assign hooks' customHooks = (hooks'', true) ∧ Stubbed vs hooks hooks'' := by
  induction customHooks generalizing hooks' with
  | nil => exact ⟨hooks', rfl, h⟩
  | cons x xs ih =>
    obtain ⟨hx, hxs⟩ := List.forall_mem_cons.1 hall
    obtain ⟨field, value⟩ := x
    cases value with
    | none => simp at hx
    | some value =>
      rw [Bool.and_eq_true] at hx
      exact ih (h.update hx.1 hx.2) hxs

theorem stubbed_stubs (hooks : HookField → V) : Stubbed vs hooks (vs.stubbed hooks) := by
  intro field
  simp only [Values.stubbed]
  split
  · exact vs.truthy_stubs field
  · rfl

theorem Stubbed.restored (h : Stubbed vs hooks hooks') : restored (some hooks) hooks' = hooks := by
  funext field
  have := h field
  simp only [HookStubs.restored, Option.getD_some]
  split
  · rfl
  next hf => simpa [hf] using this

variable {s s' : Dispatcher V} {e : HookCall V}

theorem Inv.step (h : Inv vs r objects s) (hok : s.plain vs r e = true) (hs : s.step vs r e = some s') :
    Inv vs r objects s' := by
  cases e with
  | applyHookStubs customHooks =>
    simp only [plain, Bool.and_eq_true, decide_eq_true_eq, List.all_eq_true] at hok
    obtain ⟨hzero, rfl⟩ | ⟨hone, -⟩ := h
    · simp only [Dispatcher.step] at hs
      split at hs
      · cases hs
        exact .inl ⟨hzero, rfl⟩
      next o hfind =>
        have hnew : Stubbed vs (s.objects o) (vs.stubbed (s.objects o)) := stubbed_stubs _
        obtain ⟨hooks, hassign, hst⟩ := hnew.assign (by simpa using hok.2)
        rw [hassign] at hs
        cases hs
        exact .inr ⟨by simp [hzero], o, hooks, hfind, rfl, rfl, hst⟩
    · omega
  | removeHookStubs =>
    simp only [Dispatcher.step] at hs
    split at hs
    · cases hs
    next hdep =>
      obtain ⟨hzero, -⟩ | ⟨hone, o, hooks, hfind, hold, hobj, hst⟩ := h
      · exact absurd hzero hdep
      · rw [hobj, getReactInternals_update hfind hst] at hs
        cases hs
        refine .inl ⟨by simp [hone], ?_⟩
        simp [hold, hst.restored]
  | componentThrows => cases hok
  | componentWrites x field value =>
    simp only [Dispatcher.step] at hs
    split at hs
    · cases hs
    next hdep =>
      cases hs
      simp only [plain, Bool.and_eq_true, decide_eq_true_eq] at hok
      obtain ⟨hzero, -⟩ | ⟨hone, o, hooks, hfind, hold, hobj, hst⟩ := h
      · exact absurd hzero hdep
      · obtain ⟨⟨hx, hf⟩, hv⟩ := hok
        rw [hobj, getReactInternals_update hfind hst] at hx
        cases hx
        exact .inr ⟨hone, x, _, hfind, hold, by simp [hobj], hst.update hf hv⟩

end Steps

variable {vs : Values V} {r : Internals} {objects : Nat → HookField → V} {s : Dispatcher V}

/-- If no component renders another one or throws, and custom hooks and components give values that count as true to saved fields
of the dispatcher and write nothing else, all fields of all objects are after any rendering what they were. -/
theorem hooks_restored {old : Option (HookField → V)} {es : List (HookCall V)}
    (h : run (step vs r) ⟨objects, old, 0⟩ es = some s) (hok : along (step vs r) (plain vs r) ⟨objects, old, 0⟩ es = true)
    (hend : s.depth = 0) : s.objects = objects := by
  have hinv : Inv vs r objects s := ReachesBy.preserves ⟨es, h, hok⟩ (.inl ⟨rfl, rfl⟩) fun hs hok he => hs.step hok he
  obtain ⟨-, heq⟩ | ⟨hone, -⟩ := hinv
  · exact heq
  · omega

/-- Numbers in place of functions: zero counts as false. -/
def numbers : Values Nat := ⟨(· != 0), fun _ => 1, fun _ => rfl⟩

theorem hooks_restored_once : ∃ s, run (step numbers ⟨none, [7]⟩) ⟨fun _ _ => 5, none, 0⟩
    [.applyHookStubs [(.useState, some 2)], .componentWrites 7 .useRef 3, .removeHookStubs] = some s ∧
      s.objects = fun _ _ => 5 := by
  have hok : along (step numbers ⟨none, [7]⟩) (plain numbers ⟨none, [7]⟩) ⟨fun _ _ => 5, none, 0⟩
      [.applyHookStubs [(.useState, some 2)], .componentWrites 7 .useRef 3, .removeHookStubs] = true := by decide
  exact ⟨_, rfl, hooks_restored rfl hok rfl⟩

/-- A component that renders another one: the stubs stay. -/
theorem nested_rendering_leaves_stubs : ∃ s, run (step numbers ⟨some 7, []⟩) ⟨fun _ _ => 5, none, 0⟩
    [.applyHookStubs [], .applyHookStubs [], .removeHookStubs, .removeHookStubs] = some s ∧
      s.depth = 0 ∧ s.objects 7 .useState ≠ 5 :=
  ⟨_, rfl, rfl, by decide⟩

end Dispatcher

end CloudeLoader.HookStubs
