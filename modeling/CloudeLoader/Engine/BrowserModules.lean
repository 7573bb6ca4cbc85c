import CloudeLoader.Engine.HttpHooks
import CloudeLoader.Lib.JsonValue
import CloudeLoader.Lib.Occurrence
import CloudeLoader.Lib.Transition

/-!
# Browser modules (`webkit.cc`, `plugin_loader.cc`, `lua_host/api/cloude.cc`)

The style sheets and scripts that are put into web pages are hooks in one list.
-/

namespace CloudeLoader.Engine

open JsonValue List Option

/-! ### The hooks -/

structure BrowserHook where
  path : Bytes
  pattern : Bytes
  type : TagTypes
  deriving DecidableEq

structure HookEntry where
  hook : BrowserHook
  id : Nat

/-- The list of `network_hook_ctl`, `m_registered_hooks` of `theme_webkit_mgr`, and how often `g_hookedModuleId` was used. -/
structure HookRegistry where
  hookList : List HookEntry
  registeredHooks : List Nat
  hookedModuleId : Nat

structure BrowserEnv where
  steamPath : Bytes
  regexError : Bytes → Option Bytes
  unavailable : Option Bytes

namespace HookRegistry

def addHook (r : HookRegistry) (hook : BrowserHook) : Nat × HookRegistry :=
  let id := r.hookedModuleId % 2 ^ 64
  (id, { r with hookList := r.hookList ++ [⟨hook, id⟩], hookedModuleId := r.hookedModuleId + 1 })

def removeHook (r : HookRegistry) (moduleId : Nat) : Bool × HookRegistry :=
  let kept := r.hookList.filter (·.id ≠ moduleId)
  (decide (kept.length < r.hookList.length), { r with hookList := kept })

def addBrowserHook (env : BrowserEnv) (r : HookRegistry) (path regex : Bytes) (type : TagTypes) :
    Except Bytes Nat × HookRegistry :=
  match env.regexError regex with
  | some what => (.error what, r)
  | none =>
    let (id, r) := r.addHook ⟨joinPath (joinPath env.steamPath (utf8 "steamui")) path, regex, type⟩
    (.ok id, { r with registeredHooks := r.registeredHooks ++ [id] })

def removeBrowserHook (r : HookRegistry) (hookId : Nat) : Bool × HookRegistry :=
  if r.registeredHooks.contains hookId then
    ({ r with registeredHooks := r.registeredHooks.erase hookId } : HookRegistry).removeHook hookId
  else (false, r)

def unregisterAll (r : HookRegistry) : HookRegistry :=
  { r.registeredHooks.foldl (fun r id => (r.removeHook id).2) r with registeredHooks := [] }

def Consistent (r : HookRegistry) : Prop := ∀ entry ∈ r.hookList, entry.id ∈ r.registeredHooks

end HookRegistry

/-! ### The requests of a plugin -/

def containsRemoteUrl (value : Bytes) : Bool :=
  let lower := value.map fun c => if 65 ≤ c ∧ c ≤ 90 then c + 32 else c
  (Occurrence.first (utf8 "http://") lower).isSome || (Occurrence.first (utf8 "https://") lower).isSome

def answerAdd (env : BrowserEnv) (type : TagTypes) (params : JsonValue) (r : HookRegistry) :
    Except Bytes JsonValue × HookRegistry :=
  match env.unavailable with
  | some text => (.ok (.obj [(utf8 "error", .str text)]), r)
  | none =>
    match params.valueOf getString (utf8 "content") [], params.valueOf getString (utf8 "pattern")
        (utf8 ".*") with
    | .error what, _ => (.error what, r)
    | .ok _, .error what => (.error what, r)
    | .ok content, .ok pattern =>
      if containsRemoteUrl content then
        (.ok (.obj [(utf8 "error", .str (utf8 "Network disabled: browser CSS/JS may only use local resources"))]), r)
      else
        match r.addBrowserHook env content pattern type with
        | (.error what, r) => (.error what, r)
        | (.ok id, r) => (.ok (.obj [(utf8 "id", .num id)]), r)

def getUnsigned : JsonValue → Except Bytes Nat
  | .num q => .ok ((q.num.tdiv q.den) % 2 ^ 64).toNat
  | .bool b => .ok b.toNat
  | v => .error (typeError 302 ("type must be number, but is " ++ v.typeName))

def answerRemove (env : BrowserEnv) (params : JsonValue) (r : HookRegistry) : Except Bytes JsonValue × HookRegistry :=
  match env.unavailable with
  | some text => (.ok (.obj [(utf8 "error", .str text)]), r)
  | none =>
    match params.valueOf getUnsigned (utf8 "hook_id") 0 with
    | .error what => (.error what, r)
    | .ok hookId =>
      let (ok, r) := r.removeBrowserHook hookId
      (.ok (.obj [(utf8 "success", .bool ok)]), r)

def addParams (content pattern : Bytes) : JsonValue := .obj [(utf8 "content", .str content), (utf8 "pattern", .str pattern)]

def luaAdd (env : BrowserEnv) (type : TagTypes) (content : Bytes) (pattern : Option Bytes) (r : HookRegistry) :
    Except Bytes Int × HookRegistry :=
  let (reply, r) := answerAdd env type (addParams (cString content) (cString (pattern.getD (utf8 ".*")))) r
  (match reply with
    | .error what => .error what
    | .ok result => result.valueOf getInt (utf8 "hookId") (-1), r)

def luaRemove (env : BrowserEnv) (hookId : Int) (r : HookRegistry) : Except Bytes Bool × HookRegistry :=
  let (reply, r) := answerRemove env (.obj [(utf8 "hookId", .num hookId)]) r
  (match reply with
    | .error what => .error what
    | .ok result => result.valueOf getBool (utf8 "success") false, r)

/-! ### What the calls come to -/

def accepts (env : BrowserEnv) (content : Bytes) (pattern : Option Bytes) : Bool :=
  env.unavailable.isNone && !containsRemoteUrl (cString content) &&
    (env.regexError (cString (pattern.getD (utf8 ".*")))).isNone

def requestedHook (env : BrowserEnv) (type : TagTypes) (content : Bytes) (pattern : Option Bytes) : BrowserHook :=
  ⟨joinPath (joinPath env.steamPath (utf8 "steamui")) (cString content), cString (pattern.getD (utf8 ".*")), type⟩

def HookRegistry.added (r : HookRegistry) (hook : BrowserHook) : HookRegistry :=
  ⟨r.hookList ++ [⟨hook, r.hookedModuleId % 2 ^ 64⟩], r.registeredHooks ++ [r.hookedModuleId % 2 ^ 64], r.hookedModuleId + 1⟩

variable {env : BrowserEnv} {type : TagTypes} {content : Bytes} {pattern : Option Bytes} {r : HookRegistry}

theorem HookRegistry.addBrowserHook_eq (env : BrowserEnv) (r : HookRegistry) (path regex : Bytes) (type : TagTypes) :
    r.addBrowserHook env path regex type =
      match env.regexError regex with
      | some what => (.error what, r)
      | none => (.ok (r.hookedModuleId % 2 ^ 64), r.added ⟨joinPath (joinPath env.steamPath (utf8 "steamui")) path, regex, type⟩) :=
  rfl

theorem valueOf_content (content pattern : Bytes) :
    (addParams content pattern).valueOf getString (utf8 "content") [] = .ok content := rfl

theorem valueOf_pattern (content pattern : Bytes) :
    (addParams content pattern).valueOf getString (utf8 "pattern") (utf8 ".*") = .ok pattern := rfl

theorem luaAdd_of_accepts (h : accepts env content pattern = true) :
    luaAdd env type content pattern r = (.ok (-1), r.added (requestedHook env type content pattern)) := by
  simp only [accepts, Bool.and_eq_true, Bool.not_eq_true', isNone_iff_eq_none] at h
  obtain ⟨⟨havl, hrem⟩, hreg⟩ := h
  simp only [luaAdd, answerAdd, havl, valueOf_content, valueOf_pattern, hrem, Bool.false_eq_true, if_false,
    HookRegistry.addBrowserHook_eq, hreg]
  rfl

theorem luaAdd_of_not_accepts (h : accepts env content pattern = false) : ∃ out, luaAdd env type content pattern r = (out, r) := by
  suffices hr : (luaAdd env type content pattern r).2 = r from ⟨(luaAdd env type content pattern r).1, Prod.ext rfl hr⟩
  simp only [luaAdd, answerAdd]
  cases havl : env.unavailable with
  | some text => rfl
  | none =>
    simp only [valueOf_content, valueOf_pattern]
    by_cases hrem : containsRemoteUrl (cString content) = true
    · simp only [hrem, if_true]
    · cases hreg : env.regexError (cString (pattern.getD (utf8 ".*"))) with
      | none => simp [accepts, havl, hrem, hreg] at h
      | some what => simp only [hrem, if_false, HookRegistry.addBrowserHook_eq, hreg, Bool.false_eq_true]

theorem luaRemove_eq (env : BrowserEnv) (hookId : Int) (r : HookRegistry) :
    luaRemove env hookId r =
      match env.unavailable with
      | some _ => (.ok false, r)
      | none => (.ok (r.removeBrowserHook 0).1, (r.removeBrowserHook 0).2) := by
  have hdef : (obj [(utf8 "hookId", .num hookId)]).valueOf getUnsigned (utf8 "hook_id") 0 = .ok 0 := rfl
  simp only [luaRemove, answerRemove]
  cases env.unavailable with
  | some text => rfl
  | none =>
    rfl

namespace HookRegistry

theorem removeBrowserHook_of_mem {id} (h : id ∈ r.registeredHooks) :
    r.removeBrowserHook id = (decide ((r.hookList.filter (·.id ≠ id)).length < r.hookList.length),
      ⟨r.hookList.filter (·.id ≠ id), r.registeredHooks.erase id, r.hookedModuleId⟩) := by
  simp [removeBrowserHook, removeHook, h]

theorem removeBrowserHook_of_notMem {id} (h : id ∉ r.registeredHooks) : r.removeBrowserHook id = (false, r) := by
  simp [removeBrowserHook, h]

theorem length_filter_lt_iff {id} :
    (r.hookList.filter (·.id ≠ id)).length < r.hookList.length ↔ ∃ entry ∈ r.hookList, entry.id = id := by
  simp

theorem Consistent.removeBrowserHook (h : r.Consistent) (id : Nat) : (r.removeBrowserHook id).2.Consistent := by
  by_cases hid : id ∈ r.registeredHooks
  · rw [removeBrowserHook_of_mem hid]
    intro entry hent
    obtain ⟨hmem, hne⟩ := mem_filter.1 hent
    exact (mem_erase_of_ne (by simpa using hne)).2 (h entry hmem)
  · rwa [removeBrowserHook_of_notMem hid]

theorem Consistent.added (h : r.Consistent) (hook : BrowserHook) : (r.added hook).Consistent := by
  intro entry hent
  rw [HookRegistry.added, mem_append, mem_singleton] at hent ⊢
  obtain hent | rfl := hent
  · exact .inl (h entry hent)
  · exact .inr rfl

theorem Consistent.removeBrowserHook_hookList (h : r.Consistent) (id : Nat) :
    (r.removeBrowserHook id).2.hookList = r.hookList.filter (·.id ≠ id) := by
  by_cases hid : id ∈ r.registeredHooks
  · rw [removeBrowserHook_of_mem hid]
  · rw [removeBrowserHook_of_notMem hid, eq_comm, filter_eq_self]
    intro entry hent
    simpa using fun heq : entry.id = id => hid (heq ▸ h entry hent)

theorem Consistent.removeBrowserHook_fst (h : r.Consistent) (id : Nat) :
    (r.removeBrowserHook id).1 = true ↔ ∃ entry ∈ r.hookList, entry.id = id := by
  by_cases hid : id ∈ r.registeredHooks
  · rw [removeBrowserHook_of_mem hid, decide_eq_true_iff, length_filter_lt_iff]
  · rw [removeBrowserHook_of_notMem hid]
    refine ⟨fun hf => absurd hf (by simp), ?_⟩
    rintro ⟨entry, hent, rfl⟩
    exact absurd (h entry hent) hid

theorem mem_foldl_removeHook {ids : List Nat} {entry : HookEntry} :
    entry ∈ (ids.foldl (fun r id => (r.removeHook id).2) r).hookList ↔ entry ∈ r.hookList ∧ entry.id ∉ ids := by
  induction ids generalizing r with
  | nil => simp
  | cons id ids ih =>
    rw [foldl_cons, ih, mem_cons]
    simp only [removeHook, mem_filter, decide_eq_true_eq]
    tauto

theorem Consistent.unregisterAll_hookList (h : r.Consistent) : r.unregisterAll.hookList = [] := by
  rw [eq_nil_iff_forall_not_mem]
  intro entry hent
  obtain ⟨hmem, hnot⟩ := mem_foldl_removeHook.1 hent
  exact hnot (h entry hmem)

theorem Consistent.addBrowserHook (h : r.Consistent) (env : BrowserEnv) (path regex : Bytes) (type : TagTypes) :
    (r.addBrowserHook env path regex type).2.Consistent := by
  rw [addBrowserHook_eq]
  cases env.regexError regex with
  | some what => exact h
  | none => exact h.added _

end HookRegistry

theorem luaRemove_exact_iff (hr : r.Consistent) (n : Int) (h : Nat) :
    ((luaRemove env n r).1 = .ok true ∧ (luaRemove env n r).2.hookList = r.hookList.filter (·.id ≠ h) ∧
      ∃ entry ∈ r.hookList, entry.id = h) ↔ env.unavailable = none ∧ h = 0 ∧ ∃ entry ∈ r.hookList, entry.id = 0 := by
  rw [luaRemove_eq]
  cases env.unavailable with
  | some text => simp
  | none =>
    simp only [Except.ok.injEq, hr.removeBrowserHook_fst, hr.removeBrowserHook_hookList, true_and]
    constructor
    · rintro ⟨hzero, hlist, entry, hent, rfl⟩
      refine ⟨?_, hzero⟩
      by_contra hne
      have hmem : entry ∈ r.hookList.filter (·.id ≠ 0) := mem_filter.2 ⟨hent, by simpa using hne⟩
      rw [hlist] at hmem
      simpa using (mem_filter.1 hmem).2
    · rintro ⟨rfl, hzero⟩
      exact ⟨hzero, rfl, hzero⟩

/-! ### Numbers that go through Lua -/

def sampleBrowserEnv : BrowserEnv := ⟨utf8 "/s", fun _ => none, none⟩

def noHooks : HookRegistry := ⟨[], [], 0⟩

inductive ModuleCall where
  | add (plugin : Bytes) (type : TagTypes) (content : Bytes) (pattern : Option Bytes)
  | remove (plugin : Bytes) (hookId : Int)

/-- The hooks, the numbers that successful adds returned to Lua, and the adds whose number was not removed yet: what Lua got
and the number of the hook. -/
structure ModuleSession where
  registry : HookRegistry
  returned : List Int
  live : List (Int × Nat)

namespace ModuleSession

def step (env : BrowserEnv) (s : ModuleSession) : ModuleCall → ModuleSession
  | .add _ type content pattern =>
    match luaAdd env type content pattern s.registry with
    | (.ok n, r) =>
      if r.hookedModuleId = s.registry.hookedModuleId then { s with registry := r }
      else ⟨r, s.returned ++ [n], s.live ++ [(n, s.registry.hookedModuleId % 2 ^ 64)]⟩
    | (.error _, r) => { s with registry := r }
  | .remove _ hookId =>
    match luaRemove env hookId s.registry with
    | (.ok true, r) => { s with registry := r, live := s.live.filter (·.1 ≠ hookId) }
    | (_, r) => { s with registry := r }

/-- The numbers returned are distinct, and removing one that is not removed yet returns true and takes away just the hook that
was added when it was returned. -/
def RoundTrip (env : BrowserEnv) (s : ModuleSession) : Prop :=
  s.returned.Nodup ∧ ∀ x ∈ s.live, (luaRemove env x.1 s.registry).1 = .ok true ∧
    (luaRemove env x.1 s.registry).2.hookList = s.registry.hookList.filter (·.id ≠ x.2) ∧
    ∃ entry ∈ s.registry.hookList, entry.id = x.2

/-- An add that is met is the first one and gets number 0; a remove names the live hook, or there is none. -/
def fits (env : BrowserEnv) (s : ModuleSession) : ModuleCall → Bool
  | .add _ _ content pattern =>
    !accepts env content pattern || (s.returned.isEmpty && s.registry.hookedModuleId % 2 ^ 64 == 0)
  | .remove _ hookId => s.live.isEmpty || s.live.any (·.1 == hookId)

structure Inv (s : ModuleSession) : Prop where
  returned : ∀ n ∈ s.returned, n = -1
  live : ∀ x ∈ s.live, x.1 = -1 ∧ s.returned ≠ []
  consistent : s.registry.Consistent

variable {s : ModuleSession} {plugin : Bytes} {hookId : Int}

theorem step_add_of_accepts (h : accepts env content pattern = true) :
    step env s (.add plugin type content pattern) = ⟨s.registry.added (requestedHook env type content pattern),
      s.returned ++ [-1], s.live ++ [(-1, s.registry.hookedModuleId % 2 ^ 64)]⟩ := by
  have hne : ¬ s.registry.hookedModuleId + 1 = s.registry.hookedModuleId := by omega
  simp only [step, luaAdd_of_accepts h, HookRegistry.added, if_neg hne]

theorem step_add_of_not_accepts (h : accepts env content pattern = false) :
    step env s (.add plugin type content pattern) = s := by
  obtain ⟨out, hadd⟩ : ∃ out, luaAdd env type content pattern s.registry = (out, s.registry) := luaAdd_of_not_accepts h
  simp only [step, hadd]
  cases out with
  | ok n => simp
  | error what => rfl

theorem registry_step_remove : (step env s (.remove plugin hookId)).registry = (luaRemove env hookId s.registry).2 := by
  simp only [step]
  split <;> simp_all

theorem live_step_remove (h : ∀ x ∈ s.live, x.1 ≠ hookId) : (step env s (.remove plugin hookId)).live = s.live := by
  simp only [step]
  split
  · exact filter_eq_self.2 fun x hx => by simpa using h x hx
  · rfl

theorem returned_step_remove : (step env s (.remove plugin hookId)).returned = s.returned := by
  simp only [step]
  split <;> rfl

theorem Inv.step {call} (h : Inv s) : Inv (step env s call) := by
  cases call with
  | add plugin type content pattern =>
    cases hacc : accepts env content pattern with
    | false => rwa [step_add_of_not_accepts hacc]
    | true =>
      rw [step_add_of_accepts hacc]
      refine ⟨?_, ?_, h.consistent.added _⟩
      · intro n hn
        exact (mem_append.1 hn).elim (h.returned n) mem_singleton.1
      · intro x hx
        obtain hx | hx := mem_append.1 hx
        · exact ⟨(h.live x hx).1, by simp⟩
        · rw [mem_singleton.1 hx]
          exact ⟨rfl, by simp⟩
  | remove plugin hookId =>
    refine ⟨by rw [returned_step_remove]; exact h.returned, ?_, ?_⟩
    · rw [returned_step_remove]
      intro x hx
      refine h.live x ?_
      simp only [ModuleSession.step] at hx
      split at hx
      · exact (mem_filter.1 hx).1
      · exact hx
    · rw [registry_step_remove, luaRemove_eq]
      cases env.unavailable with
      | some text => exact h.consistent
      | none => exact h.consistent.removeBrowserHook 0

theorem roundTrip_iff (h : Inv s) : RoundTrip env s ↔ s.returned.Nodup ∧
    ∀ x ∈ s.live, env.unavailable = none ∧ x.2 = 0 ∧ ∃ entry ∈ s.registry.hookList, entry.id = 0 := by
  simp only [RoundTrip, luaRemove_exact_iff h.consistent]

theorem roundTrip_add_iff (h : Inv s) (hacc : accepts env content pattern = true) :
    RoundTrip env (step env s (.add plugin type content pattern)) ↔
      s.returned = [] ∧ s.registry.hookedModuleId % 2 ^ 64 = 0 := by
  rw [roundTrip_iff h.step, step_add_of_accepts hacc]
  constructor
  · rintro ⟨hnod, hlive⟩
    refine ⟨?_, (hlive (-1, s.registry.hookedModuleId % 2 ^ 64) (by simp)).2.1⟩
    rw [eq_nil_iff_forall_not_mem]
    intro n hn
    obtain rfl := h.returned n hn
    exact (nodup_append.1 hnod).2.2 (-1) hn (-1) (by simp) rfl
  · rintro ⟨hnil, hzero⟩
    have hlive : s.live = [] := eq_nil_iff_forall_not_mem.2 fun x hx => (h.live x hx).2 hnil
    have havl : env.unavailable = none := by
      simp only [accepts, Bool.and_eq_true, isNone_iff_eq_none] at hacc
      exact hacc.1.1
    rw [hnil, hlive]
    refine ⟨by simp, fun x hx => ?_⟩
    rw [mem_singleton.1 hx]
    refine ⟨havl, hzero, ⟨requestedHook env type content pattern, s.registry.hookedModuleId % 2 ^ 64⟩, ?_, hzero⟩
    exact mem_append_right _ (by simp)

theorem roundTrip_remove_iff (h : Inv s) (hs : RoundTrip env s) :
    RoundTrip env (step env s (.remove plugin hookId)) ↔ s.live = [] ∨ ∃ x ∈ s.live, x.1 = hookId := by
  have hlive := ((roundTrip_iff h).1 hs).2
  rw [roundTrip_iff h.step, returned_step_remove]
  by_cases hid : ∃ x ∈ s.live, x.1 = hookId
  · obtain ⟨x, hx, rfl⟩ := hid
    have hnil : (step env s (.remove plugin x.1)).live = [] := by
      have hout := (hs.2 x hx).1
      cases hrem : luaRemove env x.1 s.registry with
      | mk out r =>
        rw [hrem] at hout
        obtain rfl : out = .ok true := hout
        simp only [step, hrem]
        rw [filter_eq_nil_iff]
        intro y hy
        simp [(h.live y hy).1, (h.live x hx).1]
    rw [hnil]
    exact ⟨fun _ => .inr ⟨x, hx, rfl⟩, fun _ => ⟨hs.1, by simp⟩⟩
  · rw [live_step_remove fun x hx heq => hid ⟨x, hx, heq⟩, registry_step_remove, luaRemove_eq]
    constructor
    · rintro ⟨-, hkept⟩
      refine .inl (eq_nil_iff_forall_not_mem.2 fun x hx => ?_)
      have havl := (hlive x hx).1
      obtain ⟨-, -, entry, hent, hzero⟩ := hkept x hx
      simp only [havl, h.consistent.removeBrowserHook_hookList] at hent
      simp [hzero] at hent
    · rintro (hnil | hex)
      · exact ⟨hs.1, by simp [hnil]⟩
      · exact absurd hex hid

/-- From any lists of hooks on, the numbers go through Lua in every state of a sequence of calls if and only if at most one add
is met, with a hook of number 0, and while that hook is live only it is removed. -/
theorem roundTrip_iff_fits (env : BrowserEnv) (r : HookRegistry) (hr : r.Consistent) (calls : List ModuleCall) :
    (∀ k, RoundTrip env ((calls.take k).foldl (step env) ⟨r, [], []⟩)) ↔
      Transition.along (fun s call => some (step env s call)) (fits env) ⟨r, [], []⟩ calls = true := by
  refine Transition.forall_take_iff_along (Q := Inv) ⟨by simp, by simp, hr⟩ Inv.step ⟨.nil, by simp⟩ ?_
  intro s call h hs
  cases call with
  | add plugin type content pattern =>
    cases hacc : accepts env content pattern with
    | false => simp [step_add_of_not_accepts hacc, fits, hacc, hs]
    | true => simp [roundTrip_add_iff h hacc, fits, hacc]
  | remove plugin hookId => simp [roundTrip_remove_iff h hs, fits]

theorem roundTrip_first : Transition.along (fun s call => some (step sampleBrowserEnv s call)) (fits sampleBrowserEnv)
      ⟨noHooks, [], []⟩ [.add (utf8 "p") .stylesheet (utf8 "a.css") none, .remove (utf8 "p") (-1)] = true ∧
    ∀ k, RoundTrip sampleBrowserEnv (([.add (utf8 "p") .stylesheet (utf8 "a.css") none,
      .remove (utf8 "p") (-1)].take k).foldl (step sampleBrowserEnv) ⟨noHooks, [], []⟩) :=
  ⟨rfl, (roundTrip_iff_fits sampleBrowserEnv noHooks (by simp [HookRegistry.Consistent, noHooks]) _).2 rfl⟩

theorem numbers_collide : ∃ s, [.add (utf8 "p") .stylesheet (utf8 "a.css") none, .add (utf8 "q") .stylesheet (utf8 "b.css") none
      ].foldl (step sampleBrowserEnv) ⟨noHooks, [], []⟩ = s ∧ s.returned = [-1, -1] ∧ ¬ RoundTrip sampleBrowserEnv s :=
  ⟨_, rfl, rfl, fun h => absurd h.1 (by decide)⟩

end ModuleSession

/-! ### Hooks of plugins and hooks of themes -/

/-- What changes the list of hooks: a call of a plugin, a hook of the theme, and a change of the configuration.  The handler of the
theme is called unless `set` skips it, and it removes all hooks unless `validate_theme` throws first. -/
inductive HookStep where
  | call (c : ModuleCall)
  | themeHook (path regex : Bytes) (type : TagTypes)
  | configChange (skipPropagation validated : Bool)

structure OwnedHook where
  plugin : Bytes
  returned : Int
  entry : HookEntry

structure HookOwners where
  registry : HookRegistry
  owned : List OwnedHook

namespace HookOwners

/-- An add makes the plugin the owner of what it puts into the list, and a plugin that removes a number gives up what it got that
number for. -/
def step (env : BrowserEnv) (s : HookOwners) : HookStep → HookOwners
  | .call (.add plugin type content pattern) =>
    match luaAdd env type content pattern s.registry with
    | (.ok n, r) => ⟨r, s.owned ++ (r.hookList.drop s.registry.hookList.length).map fun entry => ⟨plugin, n, entry⟩⟩
    | (.error _, r) => { s with registry := r }
  | .call (.remove plugin hookId) =>
    ⟨(luaRemove env hookId s.registry).2, s.owned.filter fun x => !(x.plugin == plugin && x.returned == hookId)⟩
  | .themeHook path regex type => { s with registry := (s.registry.addBrowserHook env path regex type).2 }
  | .configChange skipPropagation validated =>
    if !skipPropagation && validated then { s with registry := s.registry.unregisterAll } else s

/-- What plugins added and did not remove is in the list. -/
def Kept (s : HookOwners) : Prop := ∀ x ∈ s.owned, x.entry ∈ s.registry.hookList

/-- The handler removes all hooks only while no plugin has one, and who removes a hook owns hook 0 under that number, or no plugin
owns hook 0. -/
def undisturbed (env : BrowserEnv) (s : HookOwners) : HookStep → Bool
  | .call (.remove plugin hookId) =>
    env.unavailable.isSome || s.owned.all fun x => x.entry.id != 0 || (x.plugin == plugin && x.returned == hookId)
  | .configChange skipPropagation validated => skipPropagation || !validated || s.owned.isEmpty
  | _ => true

variable {s : HookOwners} {plugin : Bytes} {hookId : Int}

theorem step_add_of_accepts (h : accepts env content pattern = true) :
    step env s (.call (.add plugin type content pattern)) = ⟨s.registry.added (requestedHook env type content pattern),
      s.owned ++ [⟨plugin, -1, requestedHook env type content pattern, s.registry.hookedModuleId % 2 ^ 64⟩]⟩ := by
  simp only [step, luaAdd_of_accepts h, HookRegistry.added, drop_left, map_cons, map_nil]

theorem step_add_of_not_accepts (h : accepts env content pattern = false) :
    step env s (.call (.add plugin type content pattern)) = s := by
  obtain ⟨out, hadd⟩ : ∃ out, luaAdd env type content pattern s.registry = (out, s.registry) := luaAdd_of_not_accepts h
  simp only [step, hadd]
  cases out with
  | ok n => simp only [drop_length, map_nil, append_nil]
  | error what => rfl

theorem consistent_step {e} (h : s.registry.Consistent) : (step env s e).registry.Consistent := by
  cases e with
  | call c =>
    cases c with
    | add plugin type content pattern =>
      cases hacc : accepts env content pattern with
      | false => rwa [step_add_of_not_accepts hacc]
      | true =>
        rw [step_add_of_accepts hacc]
        exact h.added _
    | remove plugin hookId =>
      simp only [step, luaRemove_eq]
      cases env.unavailable with
      | some text => exact h
      | none => exact h.removeBrowserHook 0
  | themeHook path regex type => exact h.addBrowserHook env path regex type
  | configChange skipPropagation validated =>
    rw [step]
    split
    · intro entry hent
      rw [h.unregisterAll_hookList] at hent
      exact absurd hent not_mem_nil
    · exact h

theorem kept_step_add (hs : Kept s) : Kept (step env s (.call (.add plugin type content pattern))) := by
  cases hacc : accepts env content pattern with
  | false => rwa [step_add_of_not_accepts hacc]
  | true =>
    rw [step_add_of_accepts hacc]
    intro x hx
    obtain hx | hx := mem_append.1 hx
    · exact mem_append_left _ (hs x hx)
    · rw [mem_singleton.1 hx]
      exact mem_append_right _ (mem_singleton.2 rfl)

theorem kept_step_remove_iff (h : s.registry.Consistent) (hs : Kept s) :
    Kept (step env s (.call (.remove plugin hookId))) ↔ undisturbed env s (.call (.remove plugin hookId)) = true := by
  simp only [Kept, step, luaRemove_eq, undisturbed]
  cases env.unavailable with
  | some text => simpa using fun x hx _ => hs x hx
  | none =>
    simp only [h.removeBrowserHook_hookList, List.mem_filter, Option.isSome_none, Bool.false_or, List.all_eq_true]
    refine forall_congr' fun x => ?_
    constructor
    · intro hkept hx
      by_cases hown : (x.plugin == plugin && x.returned == hookId) = true
      · simp [hown]
      · have := (hkept ⟨hx, by simp [hown]⟩).2
        simp_all
    · rintro hall ⟨hx, hnot⟩
      refine ⟨hs x hx, ?_⟩
      obtain hne | hown := Bool.or_eq_true_iff.1 (hall hx)
      · simpa using hne
      · simp [hown] at hnot

theorem kept_step_themeHook (path regex : Bytes) (hs : Kept s) : Kept (step env s (.themeHook path regex type)) := by
  intro x hx
  simp only [step, HookRegistry.addBrowserHook_eq]
  cases env.regexError regex with
  | some what => exact hs x hx
  | none => exact mem_append_left _ (hs x hx)

theorem kept_step_configChange_iff (h : s.registry.Consistent) (hs : Kept s) (skipPropagation validated : Bool) :
    Kept (step env s (.configChange skipPropagation validated)) ↔
      undisturbed env s (.configChange skipPropagation validated) = true := by
  rw [step, undisturbed]
  split
  · next hcalled =>
    simp only [Bool.and_eq_true, Bool.not_eq_true'] at hcalled
    simp only [Kept, h.unregisterAll_hookList, not_mem_nil, imp_false, hcalled, Bool.not_true, Bool.or_self, Bool.false_or,
      List.isEmpty_iff]
    exact eq_nil_iff_forall_not_mem.symm
  · next hcalled => exact iff_of_true hs (by cases skipPropagation <;> simp_all)

/-- From any lists of hooks on, what plugins add stays in the list until they remove it, in every state of a run, if and only if no
configuration change comes in between that empties the list, and no call of another plugin that names the first hook. -/
theorem kept_iff_undisturbed (env : BrowserEnv) (r : HookRegistry) (hr : r.Consistent) (es : List HookStep) :
    (∀ k, Kept ((es.take k).foldl (step env) ⟨r, []⟩)) ↔
      Transition.along (fun s e => some (step env s e)) (undisturbed env) ⟨r, []⟩ es = true := by
  refine Transition.forall_take_iff_along (Q := fun s => s.registry.Consistent) hr consistent_step (by simp [Kept]) ?_
  intro s e h hs
  cases e with
  | call c =>
    cases c with
    | add plugin type content pattern => exact iff_of_true (kept_step_add hs) rfl
    | remove plugin hookId => exact kept_step_remove_iff h hs
  | themeHook path regex type => exact iff_of_true (kept_step_themeHook path regex hs) rfl
  | configChange skipPropagation validated => exact kept_step_configChange_iff h hs skipPropagation validated

theorem kept_owner : Transition.along (fun s e => some (step sampleBrowserEnv s e))
      (undisturbed sampleBrowserEnv) ⟨noHooks, []⟩
      [.call (.add (utf8 "p") .stylesheet (utf8 "a.css") none), .themeHook (utf8 "t.css") (utf8 ".*") .stylesheet,
        .configChange true true, .call (.remove (utf8 "p") (-1)), .configChange false true] = true ∧
    ∀ k, Kept ((([.call (.add (utf8 "p") .stylesheet (utf8 "a.css") none), .themeHook (utf8 "t.css") (utf8 ".*") .stylesheet,
        .configChange true true, .call (.remove (utf8 "p") (-1)), .configChange false true] : List HookStep).take k).foldl
      (step sampleBrowserEnv) ⟨noHooks, []⟩) :=
  ⟨rfl, (kept_iff_undisturbed sampleBrowserEnv noHooks
    (by simp [HookRegistry.Consistent, noHooks]) _).2 rfl⟩

theorem hook_lost : ¬ Kept ([.call (.add (utf8 "p") .stylesheet (utf8 "a.css") none), .configChange false true].foldl
    (step sampleBrowserEnv) ⟨noHooks, []⟩) := by
  intro h
  exact not_mem_nil (h _ (mem_singleton.2 rfl))

end HookOwners

end CloudeLoader.Engine
