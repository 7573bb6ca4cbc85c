import CloudeLoader.Lib.Transition

/-!
# Function patches (`sdk/packages/client/src/utils/patcher.ts`)

`beforePatch`, `afterPatch` and `replacePatch` put a new function into the property, whose `__cloudePatch` is the patch
object; the patch object's `original` is the function that was there before.
-/

namespace CloudeLoader.Patcher

open List Option

variable {m : Type → Type} {V : Type}

/-! ### JavaScript functions -/

/-- The function that is patched, or the one that was created for the patch of a number. -/
inductive Fn where
  | base
  | wrapper (k : Nat)
  deriving DecidableEq

/-- The keys of properties: texts, and symbols, of which `Symbol.hasInstance` is one. -/
inductive Key where
  | name
  | length
  | caller
  | arguments
  | call
  | proto
  | toString
  | cloudePatch
  | other (key : String)
  | hasInstance
  | symbol (description : String)
  deriving DecidableEq

/-- The properties of a new function that cannot be assigned to; `Object.assign` throws there. -/
def Key.refused : Key → Bool
  | .name | .length | .caller | .arguments | .hasInstance => true
  | _ => false

inductive PropValue (V : Type) where
  | value (v : V)
  | throwing
  | textOf (f : Fn)
  | patch (k : Nat)

abbrev Props (V : Type) := List (Key × PropValue V)

def Props.get (props : Props V) (key : Key) : Option (PropValue V) := (props.find? (·.1 == key)).map (·.2)

def Props.set (props : Props V) (key : Key) (v : PropValue V) : Props V := (key, v) :: props.filter (·.1 ≠ key)

def Props.assign (target : Props V) : Props V → Props V × Bool
  | [] => (target, true)
  | (_, .throwing) :: _ => (target, false)
  | (key, v) :: source => if key.refused then (target, false) else Props.assign (target.set key v) source

/-- What happens when a function is called with a `this` and arguments. -/
abbrev Fun (m : Type → Type) (V : Type) := V → List V → m V

/-- The handlers.  One that may edit its argument array returns the edited array. -/
inductive Kind (m : Type → Type) (V : Type) where
  | before (handler : V → List V → m (List V))
  | after (handler : V → List V → V → m V)
  | replace (handler : V → List V → m (V × List V))

/-- The function that is patched, and what is not in this code.  `equalsCallOriginal` is `ret == callOriginal`, which converts
an object to a primitive value and may throw there, and `isCallOriginal` says whether a value is `callOriginal`. -/
structure Env (m : Type → Type) (V : Type) where
  base : Fun m V
  baseText : m V
  baseProps : Props V
  baseCall : Option V
  invoke : V → Fun m V
  isCallOriginal : V → Bool
  equalsCallOriginal : V → m Bool
  referenceError : m V

/-- A handler around a function.  `test` tells its continuation whether what a handler returned is `callOriginal`. -/
def Kind.around [Monad m] (test : V → (Bool → m V) → m V) : Kind m V → Fun m V → Fun m V
  | .before handler, inner => fun this args => do
    let args ← handler this args
    inner this args
  | .after handler, inner => fun this args => do
    let ret ← inner this args
    handler this args ret
  | .replace handler, inner => fun this args => do
    let (ret, args) ← handler this args
    test ret fun isOriginal => if isOriginal then inner this args else pure ret

/-- The function that is created for a patch. -/
def Env.wrap [Monad m] (env : Env m V) : Kind m V → Fun m V → Fun m V :=
  Kind.around fun ret next => env.equalsCallOriginal ret >>= next

/-- What a patch is meant to do. -/
def Env.meant [Monad m] (env : Env m V) : Kind m V → Fun m V → Fun m V :=
  Kind.around fun ret next => next (env.isCallOriginal ret)

/-- To compare what the handler returns tells whether it is `callOriginal`, and does nothing else. -/
def Kind.Comparable [Monad m] (env : Env m V) : Kind m V → Prop
  | .replace handler => ∀ this args (next : V × List V → Bool → m V),
      (handler this args >>= fun x => env.equalsCallOriginal x.1 >>= next x) =
        handler this args >>= fun x => next x (env.isCallOriginal x.1)
  | _ => True

theorem Kind.Comparable.wrap_eq [Monad m] {env : Env m V} {kind : Kind m V} (h : kind.Comparable env) (inner : Fun m V) :
    env.wrap kind inner = env.meant kind inner := by
  cases kind with
  | before handler => rfl
  | after handler => rfl
  | replace handler =>
    funext this args
    exact h this args fun x isOriginal => if isOriginal then inner this x.2 else pure x.1

/-! ### The heap -/

structure Patch where
  original : Fn
  hasUnpatched : Bool
  deriving DecidableEq

/-- The function created for a patch, with its `const patch`, which is not there if `processPatch` threw. -/
structure Cell (m : Type → Type) (V : Type) where
  kind : Kind m V
  props : Props V
  patch : Option Patch

structure Heap (m : Type → Type) (V : Type) where
  property : Fn
  cells : List (Cell m V)

namespace Heap

def new : Heap m V := ⟨.base, []⟩

def propsOf (env : Env m V) (h : Heap m V) : Fn → Props V
  | .base => env.baseProps
  | .wrapper k => (h.cells[k]?.map (·.props)).getD []

def patchObject (h : Heap m V) (k : Nat) : Option Patch := h.cells[k]?.bind (·.patch)

def callOf (env : Env m V) (h : Heap m V) : Fn → Option V
  | .base => env.baseCall
  | .wrapper k =>
    match (h.propsOf env (.wrapper k)).get .call, (h.propsOf env (.wrapper k)).get .proto with
    | some (.value v), _ => some v
    | _, some (.value v) => some v
    | _, _ => none

def denote [Monad m] (env : Env m V) (h : Heap m V) : Nat → Fn → Option (Fun m V)
  | 0, _ => none
  | _ + 1, .base => some env.base
  | fuel + 1, .wrapper k =>
    match h.cells[k]? with
    | none => none
    | some cell =>
      match cell.patch with
      | none => some (env.wrap cell.kind fun _ _ => env.referenceError)
      | some patch =>
        match h.callOf env patch.original with
        | some v => some (env.wrap cell.kind (env.invoke v))
        | none => (denote env h fuel patch.original).map (env.wrap cell.kind)

def textOf (env : Env m V) (h : Heap m V) : Nat → Fn → Option (m V)
  | 0, _ => none
  | _ + 1, .base => some env.baseText
  | fuel + 1, .wrapper k =>
    match (h.propsOf env (.wrapper k)).get .toString with
    | some (.textOf f) => textOf env h fuel f
    | _ => none

def patch (env : Env m V) (h : Heap m V) (kind : Kind m V) : Heap m V × Bool :=
  let k := h.cells.length
  match Props.assign [] (h.propsOf env h.property) with
  | (props, false) => (⟨.wrapper k, h.cells ++ [⟨kind, props, none⟩]⟩, false)
  | (props, true) =>
    let props := (props.set .toString (.textOf h.property)).set .cloudePatch (.patch k)
    (⟨.wrapper k, h.cells ++ [⟨kind, props, some ⟨h.property, false⟩⟩]⟩, true)

inductive Loc where
  | property
  | original (k : Nat)
  deriving DecidableEq

def read (h : Heap m V) : Loc → Option Fn
  | .property => some h.property
  | .original k => (h.patchObject k).map (·.original)

def cloudePatch (env : Env m V) (h : Heap m V) (f : Fn) : Option Nat :=
  match (h.propsOf env f).get .cloudePatch with
  | some (.patch k) => some k
  | _ => none

def walk (env : Env m V) (h : Heap m V) (target : Fn) : Nat → Loc → Option Loc
  | 0, _ => none
  | fuel + 1, loc =>
    match h.read loc with
    | none => none
    | some f => if f = target then some loc else (h.cloudePatch env f).bind fun k => walk env h target fuel (.original k)

def modifyPatch (h : Heap m V) (k : Nat) (f : Patch → Patch) : Heap m V :=
  { h with cells := h.cells.modify k fun cell => { cell with patch := cell.patch.map f } }

def write (h : Heap m V) (loc : Loc) (f : Fn) : Heap m V :=
  match loc with
  | .property => { h with property := f }
  | .original k => h.modifyPatch k fun p => { p with original := f }

def unpatch (env : Env m V) (h : Heap m V) (k : Nat) : Heap m V × Bool :=
  match h.patchObject k with
  | none => (h, false)
  | some p =>
    if p.hasUnpatched then (h, false)
    else
      match h.walk env (.wrapper k) (h.cells.length + 1) .property with
      | none => (h, false)
      | some loc =>
        match (h.cloudePatch env (.wrapper k)).bind h.patchObject with
        | none => (h, false)
        | some q => ((h.write loc q.original).modifyPatch k fun p => { p with hasUnpatched := true }, true)

end Heap

/-! ### Properties of functions -/

/-- Properties that can be copied to a new function and leave its `call` alone. -/
def Props.Plain (props : Props V) : Prop :=
  ∀ x ∈ props, x.1.refused = false ∧ x.1 ≠ .call ∧ x.1 ≠ .proto ∧ x.2 ≠ .throwing

theorem Props.get_set_self (props : Props V) (key : Key) (v : PropValue V) : (props.set key v).get key = some v := by
  simp [Props.get, Props.set]

theorem Props.get_set_of_ne (props : Props V) {key key'} (h : key' ≠ key) (v : PropValue V) :
    (props.set key v).get key' = props.get key' := by
  have hfind : (props.filter (·.1 ≠ key)).find? (·.1 == key') = props.find? (·.1 == key') := by
    rw [find?_filter]
    congr 1
    funext x
    by_cases hx : x.1 = key' <;> simp [hx, h]
  simp only [Props.get, Props.set, find?_cons, hfind]
  rw [show (key == key') = false by simpa using h.symm]

theorem Props.Plain.set {props : Props V} (h : props.Plain) {key : Key} {v : PropValue V}
    (hkey : key.refused = false ∧ key ≠ .call ∧ key ≠ .proto) (hv : v ≠ .throwing) : (props.set key v).Plain := by
  intro x hx
  obtain rfl | hx := mem_cons.1 hx
  · exact ⟨hkey.1, hkey.2.1, hkey.2.2, hv⟩
  · exact h x (mem_filter.1 hx).1

theorem Props.Plain.get_eq_none {props : Props V} (h : props.Plain) {key : Key} (hkey : key = .call ∨ key = .proto) :
    props.get key = none := by
  rw [Props.get, map_eq_none_iff, find?_eq_none]
  intro x hx heq
  obtain ⟨-, hcall, hprt, -⟩ := h x hx
  obtain rfl : x.1 = key := by simpa using heq
  exact hkey.elim hcall hprt

theorem Props.assign_of_plain {target source : Props V} (ht : target.Plain) (hs : source.Plain) :
    ∃ props, Props.assign target source = (props, true) ∧ props.Plain := by
  induction source generalizing target with
  | nil => exact ⟨target, rfl, ht⟩
  | cons x source ih =>
    obtain ⟨key, v⟩ := x
    obtain ⟨hkey, hcall, hprt, hv⟩ := hs (key, v) (by simp)
    have hrest : Props.Plain source := fun x hx => hs x (mem_cons_of_mem _ hx)
    obtain ⟨props, hass, hpln⟩ := ih (ht.set ⟨hkey, hcall, hprt⟩ hv) hrest
    refine ⟨props, ?_, hpln⟩
    cases v with
    | throwing => exact absurd rfl hv
    | value v => simpa [Props.assign, hkey] using hass
    | textOf f => simpa [Props.assign, hkey] using hass
    | patch k => simpa [Props.assign, hkey] using hass

/-! ### The chain of patches -/

variable {env : Env m V}

namespace Heap

variable {h h' : Heap m V} {f g : Fn} {k : Nat} {kind : Kind m V} {props : Props V} {p : Patch}
  {ks js : List (Nat × Kind m V)}

/-- From `f` the patches of the list, the newest first, lead to `g`. -/
def Seg (h : Heap m V) : Fn → List (Nat × Kind m V) → Fn → Prop
  | f, [], g => f = g
  | f, (k, kind) :: ks, g => f = .wrapper k ∧ ∃ p props, h.cells[k]? = some ⟨kind, props, some p⟩ ∧
      p.hasUnpatched = false ∧ props.get .cloudePatch = some (.patch k) ∧ h.Seg p.original ks g

theorem seg_append : h.Seg f (ks ++ js) g ↔ ∃ mid, h.Seg f ks mid ∧ h.Seg mid js g := by
  induction ks generalizing f with
  | nil => simp [Seg]
  | cons x ks ih =>
    obtain ⟨k, kind⟩ := x
    simp only [cons_append, Seg, ih]
    constructor
    · rintro ⟨hf, p, props, hcell, hun, hpat, mid, h₁, h₂⟩
      exact ⟨mid, ⟨hf, p, props, hcell, hun, hpat, h₁⟩, h₂⟩
    · rintro ⟨mid, ⟨hf, p, props, hcell, hun, hpat, h₁⟩, h₂⟩
      exact ⟨hf, p, props, hcell, hun, hpat, mid, h₁, h₂⟩

theorem Seg.congr (hseg : h.Seg f ks g) (hcel : ∀ k ∈ ks.map (·.1), h'.cells[k]? = h.cells[k]?) : h'.Seg f ks g := by
  induction ks generalizing f with
  | nil => exact hseg
  | cons x ks ih =>
    obtain ⟨k, kind⟩ := x
    obtain ⟨hf, p, props, hcell, hun, hpat, hrest⟩ := hseg
    refine ⟨hf, p, props, ?_, hun, hpat, ih hrest fun j hj => hcel j (mem_cons_of_mem _ hj)⟩
    rw [hcel k (by simp), hcell]

theorem Seg.lt_length (hseg : h.Seg f ks g) : ∀ k ∈ ks.map (·.1), k < h.cells.length := by
  induction ks generalizing f with
  | nil => simp
  | cons x ks ih =>
    obtain ⟨k, kind⟩ := x
    obtain ⟨-, p, props, hcell, -, -, hrest⟩ := hseg
    refine List.forall_mem_cons.2 ⟨(List.getElem?_eq_some_iff.1 hcell).1, ih hrest⟩

/-! ### Writing into the chain -/

theorem getElem?_modifyPatch (h : Heap m V) (k : Nat) (u : Patch → Patch) (j : Nat) :
    (h.modifyPatch k u).cells[j]? =
      if k = j then h.cells[j]?.map fun cell => { cell with patch := cell.patch.map u } else h.cells[j]? := by
  rw [modifyPatch, getElem?_modify]
  split <;> simp

theorem getElem?_write_of_ne (h : Heap m V) {loc} (f : Fn) {j} (hj : loc ≠ .original j) :
    (h.write loc f).cells[j]? = h.cells[j]? := by
  cases loc with
  | property => rfl
  | original k =>
    have hne : k ≠ j := fun heq => hj (heq ▸ rfl)
    rw [write, getElem?_modifyPatch, if_neg hne]

def locAfter (loc : Loc) : List (Nat × Kind m V) → Loc
  | [] => loc
  | (k, _) :: ks => locAfter (.original k) ks

theorem locAfter_mem (loc : Loc) (ks : List (Nat × Kind m V)) :
    locAfter loc ks = loc ∨ ∃ j ∈ ks.map (·.1), locAfter loc ks = .original j := by
  induction ks generalizing loc with
  | nil => exact .inl rfl
  | cons x ks ih =>
    obtain ⟨k, kind⟩ := x
    right
    obtain heq | ⟨j, hj, heq⟩ := ih (.original k)
    · exact ⟨k, by simp, heq⟩
    · exact ⟨j, mem_cons_of_mem _ hj, heq⟩

theorem read_original (hcell : h.cells[k]? = some ⟨kind, props, some p⟩) : h.read (.original k) = some p.original := by
  simp [read, patchObject, hcell]

theorem cloudePatch_wrapper (hcell : h.cells[k]? = some ⟨kind, props, p⟩) (hpat : props.get .cloudePatch = some (.patch k)) :
    h.cloudePatch env (.wrapper k) = some k := by
  simp [cloudePatch, propsOf, hcell, hpat]

theorem Seg.walk (hseg : h.Seg f ks (.wrapper k)) (hk : k ∉ ks.map (·.1)) {loc} (hread : h.read loc = some f)
    {fuel} (hfuel : ks.length < fuel) : h.walk env (.wrapper k) fuel loc = some (locAfter loc ks) := by
  induction ks generalizing f loc fuel with
  | nil =>
    obtain rfl : f = .wrapper k := hseg
    obtain ⟨fuel, rfl⟩ : ∃ n, fuel = n + 1 := ⟨fuel - 1, by simp at hfuel; omega⟩
    simp [Heap.walk, hread, locAfter]
  | cons x ks ih =>
    obtain ⟨j, kind⟩ := x
    obtain ⟨rfl, p, props, hcell, -, hpat, hrest⟩ := hseg
    obtain ⟨fuel, rfl⟩ : ∃ n, fuel = n + 1 := ⟨fuel - 1, by simp at hfuel; omega⟩
    have hne : (Fn.wrapper j) ≠ .wrapper k := by
      rintro ⟨⟩
      exact hk (by simp)
    simp only [Heap.walk, hread, if_neg hne, cloudePatch_wrapper hcell hpat, bind_some, locAfter]
    exact ih hrest (fun hmem => hk (mem_cons_of_mem _ hmem)) (read_original hcell) (by simpa using hfuel)

theorem read_write_of_ne {loc loc'} (hne : loc' ≠ loc) : (h.write loc' g).read loc = h.read loc := by
  cases loc with
  | property =>
    cases loc' with
    | property => exact absurd rfl hne
    | original j => rfl
  | original k => simp only [read, patchObject, getElem?_write_of_ne h g hne]

theorem read_write_self {loc} (hread : h.read loc = some f) : (h.write loc g).read loc = some g := by
  cases loc with
  | property => rfl
  | original k =>
    obtain ⟨p, hp, -⟩ := map_eq_some_iff.1 hread
    obtain ⟨cell, hcell, hp⟩ := bind_eq_some_iff.1 hp
    simp [Heap.write, read, patchObject, getElem?_modifyPatch, hcell, hp]

theorem write_cell (loc : Loc) (hcell : h.cells[k]? = some ⟨kind, props, some p⟩) :
    ∃ p', (h.write loc g).cells[k]? = some ⟨kind, props, some p'⟩ ∧ p'.hasUnpatched = p.hasUnpatched := by
  by_cases hloc : loc = .original k
  · subst hloc
    exact ⟨{ p with original := g }, by simp [Heap.write, getElem?_modifyPatch, hcell], rfl⟩
  · exact ⟨p, by rw [getElem?_write_of_ne h g hloc, hcell], rfl⟩

theorem Seg.write (hseg : h.Seg f ks g) (hnod : (ks.map (·.1)).Nodup) {loc} (hread : h.read loc = some f)
    (hloc : ∀ j ∈ ks.map (·.1), loc ≠ .original j) (g' : Fn) :
    ∃ f', (h.write (locAfter loc ks) g').read loc = some f' ∧ (h.write (locAfter loc ks) g').Seg f' ks g' := by
  induction ks generalizing f loc with
  | nil => exact ⟨g', read_write_self hread, rfl⟩
  | cons x ks ih =>
    obtain ⟨j, kind⟩ := x
    obtain ⟨rfl, p, props, hcell, hun, hpat, hrest⟩ := hseg
    rw [map_cons, nodup_cons] at hnod
    obtain ⟨f', hread', hseg'⟩ := ih hrest hnod.2 (read_original hcell) fun i hi heq => hnod.1 (Loc.original.inj heq ▸ hi)
    obtain ⟨p', hcell', hun'⟩ := write_cell (locAfter (.original j) ks) hcell
    have hne : locAfter (.original j) ks ≠ loc := by
      obtain heq | ⟨i, hi, heq⟩ := locAfter_mem (.original j) ks
      · exact fun hl => hloc j (by simp) (hl.symm.trans heq)
      · exact fun hl => hloc i (mem_cons_of_mem _ hi) (hl.symm.trans heq)
    refine ⟨.wrapper j, (read_write_of_ne hne).trans hread, rfl, p', props, hcell', hun'.trans hun, hpat, ?_⟩
    obtain rfl : p'.original = f' := some.inj ((read_original hcell').symm.trans hread')
    exact hseg'

/-! ### Calls -/

def Unaltered (env : Env m V) (h : Heap m V) : Prop := ∀ f, h.callOf env f = none

def wrapped [Monad m] (env : Env m V) (ks : List (Nat × Kind m V)) : Fun m V :=
  ks.foldr (fun x inner => env.wrap x.2 inner) env.base

theorem Seg.denote [Monad m] (hcall : h.Unaltered env) (hseg : h.Seg f ks .base) {fuel} (hfuel : ks.length < fuel) :
    h.denote env fuel f = some (wrapped env ks) := by
  induction ks generalizing f fuel with
  | nil =>
    obtain rfl : f = .base := hseg
    obtain ⟨fuel, rfl⟩ : ∃ n, fuel = n + 1 := ⟨fuel - 1, by simp at hfuel; omega⟩
    rfl
  | cons x ks ih =>
    obtain ⟨k, kind⟩ := x
    obtain ⟨rfl, p, props, hcell, -, -, hrest⟩ := hseg
    obtain ⟨fuel, rfl⟩ : ∃ n, fuel = n + 1 := ⟨fuel - 1, by simp at hfuel; omega⟩
    simp only [Heap.denote, hcell, hcall p.original, ih hrest (by simpa using hfuel)]
    rfl

end Heap

/-! ### Sequences of patches -/

inductive Op (m : Type → Type) (V : Type) where
  | patch (kind : Kind m V)
  | unpatch (k : Nat)

structure State (m : Type → Type) (V : Type) where
  heap : Heap m V
  live : List (Nat × Kind m V)

def State.start : State m V := ⟨Heap.new, []⟩

/-- A patch is live once its application returned, until its `unpatch` returned; `unpatch` is called on live patches only. -/
def step (env : Env m V) (s : State m V) : Op m V → Option (State m V)
  | .patch kind =>
    match s.heap.patch env kind with
    | (heap, true) => some ⟨heap, s.live ++ [(s.heap.cells.length, kind)]⟩
    | (heap, false) => some ⟨heap, s.live⟩
  | .unpatch k =>
    if k ∈ s.live.map (·.1) then
      match s.heap.unpatch env k with
      | (heap, true) => some ⟨heap, s.live.filter (·.1 ≠ k)⟩
      | (heap, false) => some ⟨heap, s.live⟩
    else none

def behaviour [Monad m] (env : Env m V) (live : List (Nat × Kind m V)) : Fun m V :=
  live.foldl (fun inner x => env.meant x.2 inner) env.base

/-- The patches are a stack that can be taken apart in any order: applying and removing them works, calling the property is
calling the original function inside the live patches, `toString()` is the one of the original, and without live patches the
property holds the original. -/
structure Stacked [Monad m] (env : Env m V) (s : State m V) : Prop where
  call : ∀ fuel, s.heap.cells.length < fuel → s.heap.denote env fuel s.heap.property = some (behaviour env s.live)
  text : ∀ fuel, s.heap.cells.length < fuel → s.heap.textOf env fuel s.heap.property = some env.baseText
  empty : s.live = [] → s.heap.property = .base
  patch : ∀ kind, (s.heap.patch env kind).2 = true
  unpatch : ∀ k ∈ s.live.map (·.1), (s.heap.unpatch env k).2 = true

/-- The function that is patched has the `call` of all functions, and its own enumerable properties can be copied to a new
function. -/
def Env.Plain (env : Env m V) : Prop := env.baseCall = none ∧ env.baseProps.Plain

/-- Of a function: it existed before the patch of a number was applied. -/
def Fn.Older : Fn → Nat → Prop
  | .base, _ => True
  | .wrapper j, k => j < k

def Props.OfPatch (props : Props V) (k : Nat) : Prop := props.Plain ∧ ∃ f, props.get .toString = some (.textOf f) ∧ f.Older k

/-- Every wrapper carries the members that a patch gives it. -/
def Heap.OfPatches (heap : Heap m V) : Prop := ∀ k (cell : Cell m V), heap.cells[k]? = some cell → cell.props.OfPatch k

/-- The live patches are linked, and the functions of all patches have the properties that were copied and set. -/
structure Linked (s : State m V) : Prop where
  seg : s.heap.Seg s.heap.property s.live.reverse .base
  nodup : (s.live.map (·.1)).Nodup
  cells : s.heap.OfPatches

namespace Linked

variable {s s' : State m V} {kind : Kind m V} {k : Nat}

theorem start : Linked (State.start : State m V) := ⟨rfl, .nil, by simp [State.start, Heap.new, Heap.OfPatches]⟩

theorem property_older (h : Linked s) : s.heap.property.Older s.heap.cells.length := by
  have hseg := h.seg
  cases hlive : s.live.reverse with
  | nil =>
    rw [hlive] at hseg
    rw [show s.heap.property = .base from hseg]
    trivial
  | cons x ks =>
    rw [hlive] at hseg
    rw [hseg.1]
    exact hseg.lt_length x.1 (by simp)

theorem length_le (h : Linked s) : s.live.length ≤ s.heap.cells.length := by
  have hsub : s.live.map (·.1) ⊆ List.range s.heap.cells.length := by
    intro k hk
    exact mem_range.2 (h.seg.lt_length k (by simpa using hk))
  simpa using (subperm_of_subset h.nodup hsub).length_le

theorem plain_propsOf (h : Linked s) (henv : env.Plain) (f : Fn) : (s.heap.propsOf env f).Plain := by
  cases f with
  | base => exact henv.2
  | wrapper k =>
    cases hcell : s.heap.cells[k]? with
    | none => simp [Heap.propsOf, hcell, Props.Plain]
    | some cell =>
      have := (h.cells k cell hcell).1
      simpa [Heap.propsOf, hcell] using this

theorem unaltered (h : Linked s) (henv : env.Plain) : s.heap.Unaltered env := by
  intro f
  cases f with
  | base => exact henv.1
  | wrapper k =>
    have hpln := h.plain_propsOf henv (.wrapper k)
    simp only [Heap.callOf, hpln.get_eq_none (.inl rfl), hpln.get_eq_none (.inr rfl)]

theorem patch_eq (h : Linked s) (henv : env.Plain) (kind : Kind m V) : ∃ props : Props V, props.Plain ∧
    props.get .cloudePatch = some (.patch s.heap.cells.length) ∧ props.get .toString = some (.textOf s.heap.property) ∧
    s.heap.patch env kind =
      (⟨.wrapper s.heap.cells.length, s.heap.cells ++ [⟨kind, props, some ⟨s.heap.property, false⟩⟩]⟩, true) := by
  obtain ⟨props, hass, hpln⟩ := Props.assign_of_plain (show Props.Plain ([] : Props V) by simp [Props.Plain])
    (h.plain_propsOf henv s.heap.property)
  refine ⟨(props.set .toString (.textOf s.heap.property)).set .cloudePatch (.patch s.heap.cells.length), ?_, ?_, ?_,
    by simp only [Heap.patch, hass]⟩
  · exact (hpln.set (by decide) (by simp)).set (by decide) (by simp)
  · exact Props.get_set_self _ _ _
  · rw [Props.get_set_of_ne _ (by decide), Props.get_set_self]

theorem patch (h : Linked s) (henv : env.Plain) (hstep : step env s (.patch kind) = some s') : Linked s' := by
  obtain ⟨props, hpln, hpat, htext, heq⟩ := h.patch_eq henv kind
  simp only [step, heq, some.injEq] at hstep
  subst hstep
  have hold : ∀ k ∈ s.live.reverse.map (·.1), (s.heap.cells ++ [⟨kind, props, some ⟨s.heap.property, false⟩⟩])[k]? =
      s.heap.cells[k]? := fun k hk => getElem?_append_left (h.seg.lt_length k hk)
  refine ⟨?_, ?_, ?_⟩
  · rw [reverse_concat]
    exact ⟨rfl, ⟨s.heap.property, false⟩, props, by simp, rfl, hpat, h.seg.congr hold⟩
  · rw [map_append, nodup_append]
    refine ⟨h.nodup, nodup_singleton _, ?_⟩
    intro k hk j hj heq
    have := h.seg.lt_length k (by simpa using hk)
    simp only [map_cons, map_nil, mem_singleton] at hj
    omega
  · intro k cell hcell
    obtain hk | hk := Nat.lt_or_ge k s.heap.cells.length
    · exact h.cells k cell (by rwa [getElem?_append_left hk] at hcell)
    · rw [getElem?_append_right hk, getElem?_singleton] at hcell
      obtain ⟨hzero, rfl⟩ : k - s.heap.cells.length = 0 ∧ _ = cell := by simpa using hcell
      obtain rfl : k = s.heap.cells.length := by omega
      exact ⟨hpln, _, htext, h.property_older⟩

section Unpatch

variable {older newer : List (Nat × Kind m V)}

theorem notMem_of_split (h : Linked s) (hlive : s.live = older ++ (k, kind) :: newer) :
    k ∉ newer.reverse.map (·.1) ∧ k ∉ older.reverse.map (·.1) ∧ (newer.reverse.map (·.1)).Nodup ∧
      ∀ j ∈ older.reverse.map (·.1), j ∉ newer.reverse.map (·.1) := by
  have hnod := h.nodup
  rw [hlive, map_append, map_cons, nodup_middle, nodup_cons, nodup_append] at hnod
  simp only [map_reverse, mem_reverse, nodup_reverse]
  refine ⟨fun hk => hnod.1 (mem_append_right _ hk), fun hk => hnod.1 (mem_append_left _ hk), hnod.2.2.1, ?_⟩
  exact fun j hj hj' => hnod.2.2.2 j hj j hj' rfl

theorem unpatch_eq (env : Env m V) (h : Linked s) (hlive : s.live = older ++ (k, kind) :: newer) :
    ∃ p, s.heap.patchObject k = some p ∧ s.heap.Seg s.heap.property newer.reverse (.wrapper k) ∧
      s.heap.Seg p.original older.reverse .base ∧ s.heap.unpatch env k =
        ((s.heap.write (Heap.locAfter .property newer.reverse) p.original).modifyPatch k
          fun p => { p with hasUnpatched := true }, true) := by
  have hseg := h.seg
  rw [hlive, reverse_append, reverse_cons, append_assoc, Heap.seg_append] at hseg
  obtain ⟨mid, hnew, rfl, p, props, hcell, hun, hpat, holder⟩ := hseg
  have hobj : s.heap.patchObject k = some p := by simp [Heap.patchObject, hcell]
  have hlen : newer.reverse.length < s.heap.cells.length + 1 := by
    have hle := h.length_le
    rw [hlive] at hle
    simp only [length_append, length_cons] at hle
    rw [length_reverse]
    omega
  have hwalk : s.heap.walk env (.wrapper k) (s.heap.cells.length + 1) .property = some (Heap.locAfter .property newer.reverse) :=
    hnew.walk (h.notMem_of_split hlive).1 rfl hlen
  refine ⟨p, hobj, hnew, holder, ?_⟩
  simp only [Heap.unpatch, hobj, hun, hwalk, Heap.cloudePatch_wrapper hcell hpat, bind_some, if_false,
    Bool.false_eq_true]

theorem props_modifyPatch {heap : Heap m V} {u : Patch → Patch} (h : heap.OfPatches) (j : Nat) :
    (heap.modifyPatch j u).OfPatches := by
  intro k cell hcell
  rw [Heap.getElem?_modifyPatch] at hcell
  split at hcell
  · obtain ⟨cell', hcell', rfl⟩ := map_eq_some_iff.1 hcell
    exact h k cell' hcell'
  · exact h k cell hcell

theorem props_write {heap : Heap m V} (h : heap.OfPatches) (loc : Heap.Loc) (f : Fn) :
    (heap.write loc f).OfPatches := by
  cases loc with
  | property => exact h
  | original j => exact props_modifyPatch h j

theorem unpatch (h : Linked s) (hstep : step env s (.unpatch k) = some s') : Linked s' := by
  simp only [step] at hstep
  obtain ⟨hk, hstep⟩ := ite_none_right_eq_some.1 hstep
  obtain ⟨⟨k, kind⟩, hmem, rfl⟩ := mem_map.1 hk
  obtain ⟨older, newer, hlive⟩ := append_of_mem hmem
  obtain ⟨hnew, hold, hnod, hdisj⟩ := h.notMem_of_split hlive
  obtain ⟨p, hobj, hnwr, holder, heq⟩ := h.unpatch_eq env hlive
  rw [heq] at hstep
  simp only [some.injEq] at hstep
  subst hstep
  have hkeep : ∀ l : List (Nat × Kind m V), k ∉ l.reverse.map (·.1) → l.filter (fun x => decide (x.1 ≠ k)) = l := by
    intro l hl
    rw [filter_eq_self]
    intro x hx
    simpa using fun heq => hl (mem_map.2 ⟨x, mem_reverse.2 hx, heq⟩)
  have hlive' : s.live.filter (fun x => decide (x.1 ≠ k)) = older ++ newer := by
    rw [hlive, filter_append, filter_cons_of_neg (by simp), hkeep older hold, hkeep newer hnew]
  obtain ⟨f, hread, hseg⟩ := hnwr.write hnod (show s.heap.read .property = some s.heap.property from rfl) (by simp)
    p.original
  have hmark : ∀ (heap : Heap m V) {j}, j ≠ k →
      (heap.modifyPatch k fun p => { p with hasUnpatched := true }).cells[j]? = heap.cells[j]? := by
    intro heap j hj
    rw [Heap.getElem?_modifyPatch, if_neg hj.symm]
  have hend : ∀ j ∈ older.reverse.map (·.1), Heap.locAfter .property newer.reverse ≠ .original j := by
    intro j hj heq
    obtain hloc | ⟨i, hi, hloc⟩ := Heap.locAfter_mem .property newer.reverse
    · exact absurd (hloc.symm.trans heq) (by simp)
    · exact hdisj j hj (Heap.Loc.original.inj (hloc.symm.trans heq) ▸ hi)
  refine ⟨?_, ?_, props_modifyPatch (props_write h.cells _ _) k⟩
  · rw [hlive', reverse_append, Heap.seg_append]
    refine ⟨p.original, ?_, ?_⟩
    · obtain rfl : (s.heap.write (Heap.locAfter .property newer.reverse) p.original).property = f := some.inj hread
      exact hseg.congr fun j hj => hmark _ fun heq => hnew (heq ▸ hj)
    · refine holder.congr fun j hj => ?_
      rw [hmark _ fun heq => hold (heq ▸ hj), Heap.getElem?_write_of_ne _ _ (hend j hj)]
  · rw [hlive']
    have hnod' := h.nodup
    rw [hlive, map_append, map_cons, nodup_middle, nodup_cons, ← map_append] at hnod'
    exact hnod'.2

end Unpatch

theorem step {op} (h : Linked s) (henv : env.Plain) (hstep : step env s op = some s') : Linked s' := by
  cases op with
  | patch kind => exact h.patch henv hstep
  | unpatch k => exact h.unpatch hstep

theorem textOf (h : Linked s) {f : Fn} {n fuel} (hold : f.Older n) (hn : n ≤ s.heap.cells.length) (hfuel : n < fuel) :
    s.heap.textOf env fuel f = some env.baseText := by
  induction fuel generalizing f n with
  | zero => omega
  | succ fuel ih =>
    cases f with
    | base => rfl
    | wrapper j =>
      have hj : j < n := hold
      obtain ⟨cell, hcell⟩ : ∃ cell, s.heap.cells[j]? = some cell := ⟨_, getElem?_eq_getElem (by omega)⟩
      obtain ⟨-, f, htext, hf⟩ := h.cells j cell hcell
      simp only [Heap.textOf, Heap.propsOf, hcell, map_some, getD_some, htext]
      exact ih hf (by omega) (by omega)

theorem stacked [Monad m] (h : Linked s) (henv : env.Plain) (hlive : ∀ x ∈ s.live, x.2.Comparable env) :
    Stacked env s where
  call := by
    intro fuel hfuel
    have hle := h.length_le
    rw [h.seg.denote (h.unaltered henv) (by rw [length_reverse]; omega), Heap.wrapped, foldr_reverse]
    exact congrArg some (foldl_ext _ _ _ fun inner x hx => (hlive x hx).wrap_eq inner)
  text := fun fuel hfuel => h.textOf h.property_older (Nat.le_refl _) hfuel
  empty := by
    intro hlive
    have hseg := h.seg
    rw [hlive] at hseg
    exact hseg
  patch := by
    intro kind
    obtain ⟨props, -, -, -, heq⟩ := h.patch_eq henv kind
    rw [heq]
  unpatch := by
    intro k hk
    obtain ⟨⟨k, kind⟩, hmem, rfl⟩ := mem_map.1 hk
    obtain ⟨older, newer, hlive⟩ := append_of_mem hmem
    obtain ⟨p, -, -, -, heq⟩ := h.unpatch_eq env hlive
    rw [heq]

end Linked

/-- Patches of a function whose properties can be copied are a stack that can be taken apart in any order, as long as what the
live handlers return can be compared with `callOriginal`. -/
theorem stacked_of_reaches [Monad m] (env : Env m V) (henv : env.Plain) (s : State m V)
    (h : Transition.Reaches (step env) State.start s) (hlive : ∀ x ∈ s.live, x.2.Comparable env) : Stacked env s := by
  obtain ⟨ops, hrun⟩ := h
  refine Linked.stacked ?_ henv hlive
  exact Transition.run_induction (P := fun _ s => Linked s) Linked.start (fun _ hlin hstep => hlin.step henv hstep) hrun

/-- Numbers as values: 9 is `callOriginal`, and 8 cannot be compared. -/
def sampleEnv (key : Key) : Env Option Nat :=
  ⟨fun _ args => some args.length, some 0, [(key, .value 1)], none, fun _ _ _ => none, fun ret => ret == 9,
    fun ret => if ret = 8 then none else some (ret == 9), none⟩

def addArgument : Kind Option Nat := .before fun _ args => some (7 :: args)

def addTen : Kind Option Nat := .after fun _ _ ret => some (ret + 10)

def passOn : Kind Option Nat := .replace fun _ args => some (9, 3 :: args)

def sampleOps : List (Op Option Nat) := [.patch addArgument, .patch addTen, .patch passOn, .unpatch 0]

theorem stacked_two : ∃ s, Transition.run (step (sampleEnv (.other "displayName"))) State.start sampleOps = some s ∧
    s.live = [(1, addTen), (2, passOn)] ∧ Stacked (sampleEnv (.other "displayName")) s := by
  refine ⟨_, rfl, rfl, stacked_of_reaches (sampleEnv (.other "displayName")) ?_ _ ⟨sampleOps, rfl⟩ fun x hx => ?_⟩
  · exact ⟨rfl, by simp [sampleEnv, Props.Plain, Key.refused]⟩
  · obtain rfl | rfl : x = (1, addTen) ∨ x = (2, passOn) := by
      simpa using (show x ∈ [(1, addTen), (2, passOn)] from hx)
    · trivial
    · intro this args next
      rfl

/-- `Object.assign` throws for a function with an enumerable property `name`, after the property was replaced; no patch is
live, but calling the property throws. -/
theorem not_stacked_name : ∃ s, Transition.run (step (sampleEnv .name)) State.start [.patch addArgument] = some s ∧
    s.live = [] ∧ (s.heap.denote (sampleEnv .name) 2 s.heap.property).map (fun f => f 0 []) = some none ∧
    ¬ Stacked (sampleEnv .name) s := by
  refine ⟨⟨⟨.wrapper 0, [⟨addArgument, [], none⟩]⟩, []⟩, rfl, rfl, rfl, fun h => ?_⟩
  exact absurd (h.empty rfl) (by decide)

end CloudeLoader.Patcher
