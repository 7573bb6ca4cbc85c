import CloudeLoader.Engine.PatchHandler

/-!
# Whole messages

What a `PATCHES` message does to the arena if nobody else is at work: with enough room for all that it needs
(`Handler.size`) the handler appends the patches to the plugin's list and takes exactly that room; with less, some request
is refused (`Handler.rest_spec`, by induction on the calls that are still to be made).
-/

namespace CloudeLoader

open ByteMemory Arena List Nat

namespace Handler

variable {s : Arena} {st : Store} {dead : List PatchListShm} {m : PatchMap} {h h' : Handler}

theorem step_full (hs : s.Holds st dead m) (hok : h.Ok st) (hshr : h.Short)
    (hr : (h.step s).1.refusals ≠ s.refusals) : shmIpcSize < st.used + h.size st := by
  obtain ⟨plugin, started, patchList, patch, transforms, todo⟩ := h
  rw [hs.lay.refusals] at hr
  have hok' := hs.store.ok
  refine Nat.lt_of_not_le fun hroom => hr ?_
  cases transforms with
  | cons t transforms =>
    obtain ⟨mtch, replace⟩ := t
    obtain ⟨i, l, he, hpos, hpat⟩ := hok.patch (cons_ne_nil _ _)
    obtain rfl : patch = _ := hpat
    have hlt := hshr.transforms (mtch, replace) (mem_cons_self)
    obtain ⟨hb, hj⟩ := (hok'.entry_listOk (mem_of_getElem? he)).slot (show l.patchCount - 1 < l.patchCount by omega)
    refine (hs.lay.patchAddTransform hok' hb hj hlt.1 hlt.2).refusals.trans ?_
    refine (hok'.addTransform_spends hb hj mtch replace).refusals_eq_iff.2 ?_
    simp only [size, hs.store.header_eq he, transformsSize] at hroom ⊢
    omega
  | nil =>
    cases todo with
    | nil => exact hs.lay.refusals
    | cons p todo =>
      have hp := hshr.todo p (mem_cons_self)
      cases started with
      | false =>
        obtain ⟨s', st', r, e, e', hlay⟩ := hs.lay.hashmapAddKey hok' hshr.plugin
        have hspn := hok'.addKey_keySize hs.lay.used_le plugin
        simp only [step, e, e', Bool.false_eq_true, ↓reduceIte] at hspn ⊢
        refine hlay.refusals.trans (hspn.refusals_eq_iff.2 ?_)
        simp only [size, isEmpty_cons, Bool.or_false, Bool.false_eq_true, ↓reduceIte] at hroom
        omega
      | true =>
        obtain ⟨i, l, he, hlist⟩ := hok.list rfl
        obtain rfl : patchList = _ := hlist
        obtain ⟨hic, el⟩ := hok'.entry_slot he
        obtain ⟨s', st', r, e, e', hlay⟩ := hs.lay.patchlistAdd hok' hok'.values hic hp.1 hp.2.1
        have hspn := hok'.addPatch_spends hok'.values hic p.file p.find
        simp only [step, e, e', ↓reduceIte, ← el] at hspn ⊢
        refine hlay.refusals.trans (hspn.refusals_eq_iff.2 ?_)
        simp only [size, hs.store.header_eq he, patchesSize] at hroom
        omega

def calls (h : Handler) : Nat :=
  h.transforms.length + (h.todo.map fun p => 1 + p.transforms.length).sum + if h.started then 0 else 1

theorem calls_step {s'} (hf : h.finished = false) (e : h.step s = (s', .ok h')) : h'.calls < h.calls := by
  obtain ⟨plugin, started, patchList, patch, transforms, todo⟩ := h
  cases transforms with
  | cons t transforms =>
    cases patch with
    | none => simp [step] at e
    | some p =>
      simp only [step, Prod.mk.injEq, Except.ok.injEq] at e
      simp only [← e.2, calls, length_cons]
      omega
  | nil =>
    cases todo with
    | nil => simp [finished] at hf
    | cons p todo =>
      cases started with
      | false =>
        simp only [step, Bool.false_eq_true, ↓reduceIte, Prod.mk.injEq, Except.ok.injEq] at e
        simp [← e.2, calls]
      | true =>
        cases patchList with
        | none => simp [step] at e
        | some list =>
          simp only [step, ↓reduceIte, Prod.mk.injEq, Except.ok.injEq] at e
          simp only [← e.2, calls, length_nil, map_cons, sum_cons]
          omega

/-- A thread that is alone and has enough room leaves the list it is to leave and takes the room it needs. -/
structure RestSpec (s : Arena) (st : Store) (dead : List PatchListShm) (m : PatchMap) (h : Handler) (s' : Arena)
    (st' : Store) (m' : PatchMap) : Prop where
  rest : h.rest s = (s', none)
  holds : s'.Holds st' dead m'
  refusals : s'.refusals = s.refusals
  used : st'.used = st.used + h.size st
  self : (m'.get h.plugin).getD [] = h.expected m
  other : ∀ k, k ≠ h.plugin → m'.get k = m.get k

private theorem rest_finished_spec (hs : s.Holds st dead m) (hf : h.finished = true) :
    h.size st = 0 ∧ RestSpec s st dead m h s st m := by
  obtain ⟨ht, htodo⟩ : h.transforms = [] ∧ h.todo = [] := by simpa [finished] using hf
  have hsize : h.size st = 0 := by simp [size, ht, htodo, transformsSize, patchesSize]
  refine ⟨hsize, rest_finished hf, hs, rfl, by rw [hsize]; rfl, ?_, fun _ _ => rfl⟩
  rw [expected, ht, htodo, finishList_nil, append_nil]

theorem rest_spec (hs : s.Holds st dead m) (hok : h.Ok st) (hshr : h.Short) :
    (shmIpcSize < st.used + h.size st → s.refusals < (h.rest s).1.refusals) ∧
      (st.used + h.size st ≤ shmIpcSize → ∃ s' st' m', RestSpec s st dead m h s' st' m') := by
  induction hn : h.calls using Nat.strong_induction_on generalizing s st m h with
  | _ n ih =>
    subst hn
    by_cases hf : h.finished = true
    · obtain ⟨hsize, hspec⟩ := rest_finished_spec hs hf
      have hle := hs.lay.used_le
      exact ⟨fun hlt => by omega, fun _ => ⟨s, st, m, hspec⟩⟩
    · by_cases hr : (h.step s).1.refusals = s.refusals
      · obtain ⟨s₁, h₁, st₁, m₁, e, hs₁, hspec⟩ := step_spec hs hok hshr hr
        have hrest : h.rest s = h₁.rest s₁ := by rw [rest_step, e]
        have hplg := step_plugin e
        have hsize := hspec.size
        have href : s₁.refusals = s.refusals := by rw [← hr, e]
        obtain ⟨hfull, hfits⟩ := ih _ (calls_step (by simpa using hf) e) hs₁ hspec.ok hspec.short rfl
        rw [hrest, ← href]
        refine ⟨fun hlt => hfull (by omega), fun hle => ?_⟩
        obtain ⟨s', st', m', hr'⟩ := hfits (by omega)
        refine ⟨s', st', m', hrest.trans hr'.rest, hr'.holds, hr'.refusals.trans href, by rw [hr'.used]; exact hsize, ?_, ?_⟩
        · rw [← hplg, hr'.self, hspec.expected]
        · intro k hk
          rw [hr'.other k (by rw [hplg]; exact hk), hspec.other k hk]
      · have hfull := step_full hs hok hshr hr
        refine ⟨fun _ => ?_, fun hle => by omega⟩
        have hle := (step_extends s h).refusals_le
        have hle' : (h.step s).1.refusals ≤ (h.rest s).1.refusals := by
          rw [rest_step]
          split
          · rename_i e
            rw [e]
            exact (rest_extends _ _).refusals_le
          · rename_i e
            rw [e]
        omega

end Handler

/-! ### A message -/

def sentPatches (params : Option (List PatchParams)) : List Patch := (params.getD []).map PatchParams.decode

def messageSize (st : Store) (plugin : CString) (patches : List Patch) : Nat :=
  (if patches.isEmpty then 0 else st.keySize plugin) +
    patchesSize (st.header plugin).patchCount (st.header plugin).patchCapacity patches

theorem size_start (st : Store) (plugin : CString) (params : Option (List PatchParams)) :
    (Handler.start plugin params).size st = messageSize st plugin (sentPatches params) := by
  simp only [Handler.size, Handler.start, transformsSize, messageSize, sentPatches, Bool.false_or, zero_add]
  rfl

theorem onPatches_spec {s st dead m plugin} {params} (hs : s.Holds st dead m) (hplg : plugin.length < 2 ^ 31)
    (hshr : ∀ p ∈ sentPatches params, p.Short) :
    (shmIpcSize < st.used + messageSize st plugin (sentPatches params) →
      s.refusals < (onPatches s plugin params).1.refusals) ∧
    (st.used + messageSize st plugin (sentPatches params) ≤ shmIpcSize → ∃ s' st' m',
      onPatches s plugin params = (s', none) ∧ s'.Holds st' dead m' ∧ s'.refusals = s.refusals ∧
      st'.used = st.used + messageSize st plugin (sentPatches params) ∧
      (m'.get plugin).getD [] = (m.get plugin).getD [] ++ sentPatches params ∧ ∀ k, k ≠ plugin → m'.get k = m.get k) := by
  have hok : (Handler.start plugin params).Ok st :=
    ⟨fun hf => by simp [Handler.start, Handler.inFlight] at hf, fun ht => absurd rfl ht⟩
  have hshr' : (Handler.start plugin params).Short := ⟨hplg, fun t ht => by simp [Handler.start] at ht, hshr⟩
  have h := Handler.rest_spec hs hok hshr'
  rw [size_start, Handler.rest_start] at h
  refine ⟨h.1, fun hle => ?_⟩
  obtain ⟨s', st', m', hspec⟩ := h.2 hle
  refine ⟨s', st', m', (Handler.rest_start ..).symm.trans hspec.rest, hspec.holds, hspec.refusals,
    by rw [hspec.used, size_start], ?_, hspec.other⟩
  exact hspec.self.trans (finishList_nil _ _)

/-! ### Round after round -/

def enableDisable (s : Arena) (plugin : CString) (params : Option (List PatchParams)) : Arena × Option NullPointer :=
  match onPatches s plugin params with
  | (s, some e) => (s, some e)
  | (s, none) => (hashmapRemove s plugin, none)

def rounds (s : Arena) (plugin : CString) (params : Option (List PatchParams)) : Nat → Arena × Option NullPointer
  | 0 => (s, none)
  | n + 1 =>
    match rounds s plugin params n with
    | (s, some e) => (s, some e)
    | (s, none) => enableDisable s plugin params

/-- After `n` rounds the message is registered completely: no request is refused, `NULL` is passed neither now nor in one
of the rounds, and the list of the plugin is the one it sent. -/
def RegisteredAfter (mem : Mem) (plugin : CString) (params : Option (List PatchParams)) (n : Nat) : Prop :=
  let s := rounds (initArena mem) plugin params n
  let s' := onPatches s.1 plugin params
  s.2 = none ∧ s'.2 = none ∧ ¬s'.1.OutOfSpace ∧ s'.1.patchesOf plugin = sentPatches params

def newMessageSize (plugin : CString) (patches : List Patch) : Nat :=
  (if patches.isEmpty then 0 else strSize plugin) + patchesSize 0 0 patches

section Rounds

variable {s : Arena} {st : Store} {dead : List PatchListShm} {plugin : CString} {params : Option (List PatchParams)}

theorem empty_sizes (hs : s.Holds st dead .empty) (plugin : CString) :
    st.header plugin = ⟨0, 0, 0⟩ ∧ st.keySize plugin = strSize plugin := by
  have hcnt : st.count = 0 := by
    rw [← Store.entries_length, ← length_map, hs.store.keys_eq]
    rfl
  have hidx : st.index plugin = none := by simp [Store.index, hcnt]
  have hpos : st.count < st.capacity := by
    rw [hcnt]
    exact hs.store.ok.blocks.pos hs.store.ok.keys
  simp [Store.header, Store.keySize, hidx, mapGrowth, hpos]

theorem messageSize_empty (hs : s.Holds st dead .empty) (patches : List Patch) :
    messageSize st plugin patches = newMessageSize plugin patches := by
  obtain ⟨hhdr, hkey⟩ := empty_sizes hs plugin
  rw [messageSize, newMessageSize, hhdr, hkey]

theorem enableDisable_spec (hs : s.Holds st dead .empty) (hplg : plugin.length < 2 ^ 31)
    (hshr : ∀ p ∈ sentPatches params, p.Short)
    (hroom : st.used + newMessageSize plugin (sentPatches params) ≤ shmIpcSize) :
    ∃ s' st' dead', enableDisable s plugin params = (s', none) ∧ s'.Holds st' dead' .empty ∧
      s'.refusals = s.refusals ∧ st'.used = st.used + newMessageSize plugin (sentPatches params) := by
  rw [← messageSize_empty hs] at hroom ⊢
  obtain ⟨s₁, st₁, m₁, e, hs₁, href, hused, -, hoth⟩ := (onPatches_spec hs hplg hshr).2 hroom
  have hemp : m₁.erase plugin = .empty := by
    refine InsertionMap.eq_empty fun k => ?_
    by_cases hk : k = plugin
    · rw [hk, InsertionMap.get_erase_self]
    · rw [InsertionMap.get_erase_ne hk, hoth k hk]
      rfl
  simp only [enableDisable, e]
  obtain ⟨st₂, dead₂, hs₂, hused₂, href₂⟩ := hs₁.hashmapRemove_any plugin
  rw [hemp] at hs₂
  exact ⟨_, st₂, dead₂, rfl, hs₂, href₂.trans href, hused₂.trans hused⟩

theorem rounds_spec (hs : s.Holds st dead .empty) (hplg : plugin.length < 2 ^ 31)
    (hshr : ∀ p ∈ sentPatches params, p.Short) (n : Nat)
    (hroom : st.used + n * newMessageSize plugin (sentPatches params) ≤ shmIpcSize) :
    ∃ s' st' dead', rounds s plugin params n = (s', none) ∧ s'.Holds st' dead' .empty ∧
      s'.refusals = s.refusals ∧ st'.used = st.used + n * newMessageSize plugin (sentPatches params) := by
  induction n with
  | zero => exact ⟨s, st, dead, rfl, hs, rfl, by omega⟩
  | succ n ih =>
    rw [succ_mul] at hroom ⊢
    obtain ⟨s₁, st₁, dead₁, e₁, hs₁, href₁, hused₁⟩ := ih (by omega)
    obtain ⟨s₂, st₂, dead₂, e₂, hs₂, href₂, hused₂⟩ := enableDisable_spec hs₁ hplg hshr (by omega)
    refine ⟨s₂, st₂, dead₂, ?_, hs₂, href₂.trans href₁, by omega⟩
    simp only [rounds, e₁, e₂]

theorem registered_iff_of_room {mem : Mem} (hplg : plugin.length < 2 ^ 31)
    (hshr : ∀ p ∈ sentPatches params, p.Short) {n : Nat}
    (hroom : (initArena mem).used + n * newMessageSize plugin (sentPatches params) ≤ shmIpcSize) :
    RegisteredAfter mem plugin params n ↔
      (initArena mem).used + (n + 1) * newMessageSize plugin (sentPatches params) ≤ shmIpcSize := by
  have hs₀ := holds_initArena mem
  have hout : ¬(initArena mem).OutOfSpace := (refusals_eq_zero _).1 hs₀.lay.refusals
  rw [hs₀.lay.used] at hroom ⊢
  obtain ⟨s₁, st₁, dead₁, e₁, hs₁, href₁, hused₁⟩ := rounds_spec hs₀ hplg hshr n hroom
  obtain ⟨hfull, hfits⟩ := onPatches_spec hs₁ hplg hshr
  rw [messageSize_empty hs₁, hused₁, Nat.add_assoc, ← Nat.succ_mul] at hfull hfits
  simp only [RegisteredAfter, e₁]
  constructor
  · rintro ⟨-, -, hspc, -⟩
    refine Nat.le_of_not_lt fun hlt => hspc ?_
    have := hfull hlt
    by_contra hno
    rw [(refusals_eq_zero _).2 hno] at this
    omega
  · intro hle
    obtain ⟨s', st', m', e, hs', href, -, hself, -⟩ := hfits hle
    rw [e]
    refine ⟨trivial, rfl, ?_, ?_⟩
    · rw [← refusals_eq_zero, href, href₁, refusals_eq_zero]
      exact hout
    · rw [hs'.patchesOf_eq, hself]
      rfl

theorem onPatches_null (hs : s.Holds st dead .empty) (hplg : plugin.length < 2 ^ 31) {p patches}
    (hsent : sentPatches params = p :: patches) (hp : p.Short) (htrn : p.transforms ≠ [])
    (hroom : st.used + strSize plugin ≤ shmIpcSize)
    (hfull : shmIpcSize < st.used + strSize plugin + arraySize .patches 0) :
    (onPatches s plugin params).2 = some .patch := by
  obtain ⟨hhdr, hkey⟩ := empty_sizes hs plugin
  have hspn := hs.store.ok.addKey_keySize hs.lay.used_le plugin
  rw [hkey] at hspn
  have href : (hashmapAddKey s plugin).1.refusals = s.refusals := by
    obtain ⟨s₁, st₁, r, e, e', hlay⟩ := hs.lay.hashmapAddKey hs.store.ok hplg
    rw [e'] at hspn
    rw [e, hlay.refusals, hs.lay.refusals, hspn.refusals_eq_iff]
    exact hroom
  obtain ⟨s₁, st₁, i, e₁, e₁', hs₁, he, -, -⟩ := hs.hashmapAddKey hplg href
  rw [e₁'] at hspn
  have hused : st₁.used = st.used + strSize plugin := (hspn.fits hroom).1
  obtain ⟨hic, el⟩ := hs₁.store.ok.entry_slot he
  rw [hhdr] at el
  obtain ⟨s₂, st₂, r, e₂, e₂', -⟩ := hs₁.lay.patchlistAdd hs₁.store.ok hs₁.store.ok.values hic hp.1 hp.2.1
  obtain rfl : r = none := by
    rcases Store.addPatch_cases hs₁.store.ok (.list hs₁.store.ok.values hic) p.file p.find with ⟨-, -, e⟩ | ⟨st', hroom', -⟩
    · rw [e] at e₂'
      injection e₂' with _ e₂'
      exact e₂'.symm
    · have hcap : 0 = st₁.word st₁.valuesOff (3 * i + 2) := congrArg PatchListShm.patchCapacity el
      cases hroom' with
      | fits hlt => omega
      | moved _ hle =>
        rw [← hcap] at hle
        omega
  obtain ⟨t, ts, hts⟩ := exists_cons_of_ne_nil htrn
  show (handlePatches s plugin (sentPatches params)).2 = some .patch
  simp only [hsent, handlePatches, e₁, addPatches, e₂, hts, addTransforms, Option.map_none]

end Rounds

/-- The first `n + 1` messages of a plugin that is disabled after each are all registered completely if and only if the
arena has room for `n + 1` copies of the registration. -/
theorem registeredAfter_iff (mem : Mem) (plugin : CString) (params : Option (List PatchParams))
    (hplugin : plugin.length < 2 ^ 31) (hshort : ∀ p ∈ sentPatches params, p.Short) (n : Nat) :
    (∀ k ≤ n, RegisteredAfter mem plugin params k) ↔
      (initArena mem).used + (n + 1) * newMessageSize plugin (sentPatches params) ≤ shmIpcSize := by
  constructor
  · intro hall
    -- a round that is complete has room for the next one to be examined
    induction n with
    | zero =>
      refine (registered_iff_of_room hplugin hshort ?_).1 (hall 0 (le_refl _))
      have := (holds_initArena mem).lay.used_le
      rw [(holds_initArena mem).lay.used]
      omega
    | succ n ih =>
      have hroom := ih fun k hk => hall k (le_succ_of_le hk)
      exact (registered_iff_of_room hplugin hshort hroom).1 (hall (n + 1) (le_refl _))
  · intro hroom k hk
    have hmono := mul_le_mul_right (newMessageSize plugin (sentPatches params)) (succ_le_succ hk)
    have hsucc := succ_mul k (newMessageSize plugin (sentPatches params))
    have hroom' : (initArena mem).used + (k + 1) * newMessageSize plugin (sentPatches params) ≤ shmIpcSize := by
      simp only [succ_eq_add_one] at hmono
      omega
    refine (registered_iff_of_room hplugin hshort ?_).2 hroom'
    simp only [succ_eq_add_one] at hsucc
    omega

def smallMessage : Option (List PatchParams) :=
  some [⟨some (.ofBytes (replicate 24 97)), none, some [⟨none, none⟩]⟩]

theorem registeredAfter_smallMessage : RegisteredAfter (fun _ => 0) (.ofBytes [112]) smallMessage 5955 :=
  (registeredAfter_iff (fun _ => 0) (.ofBytes [112]) smallMessage (by decide) (by decide) 5955).2 (by decide +kernel)
    5955 (le_refl _)

theorem smallMessage_null :
    let s := rounds (initArena fun _ => 0) (.ofBytes [112]) smallMessage 5956
    RegisteredAfter (fun _ => 0) (.ofBytes [112]) smallMessage 0 ∧ s.2 = none ∧
      (onPatches s.1 (.ofBytes [112]) smallMessage).2 = some .patch := by
  have hsize : newMessageSize (.ofBytes [112]) (sentPatches smallMessage) = 176 := by decide +kernel
  have hused : (Store.initial fun _ => 0).used = 280 := by decide +kernel
  have hs₀ := holds_initArena fun _ => 0
  constructor
  · refine (registered_iff_of_room (by decide) (by decide) ?_).2 ?_
    · rw [hs₀.lay.used, hsize]
      decide
    · rw [hs₀.lay.used, hused, hsize]
      decide
  · have hshr : ∀ p ∈ sentPatches smallMessage, p.Short := by decide
    have hplg : CString.length (.ofBytes [112]) < 2 ^ 31 := by decide
    obtain ⟨s, st, dead, e, hs, -, hst⟩ := rounds_spec hs₀ hplg hshr 5956 (by rw [hused, hsize]; decide)
    rw [hused, hsize] at hst
    simp only [e, true_and]
    refine onPatches_null hs hplg rfl (by decide) (by decide) ?_ ?_
    · rw [hst]
      decide
    · rw [hst]
      decide

end CloudeLoader
