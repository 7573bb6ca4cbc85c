import CloudeLoader.Arena.Space

/-!
# The handler of `PATCHES` (`engine/plugin_loader.cc`)

A child process reports its patches in one message; the handler adds the plugin to the arena and then every patch with its
transforms, one call into the arena after the other.
-/

namespace CloudeLoader

open ByteMemory Arena InsertionMap List Option

variable {h : Handler} {m' : PatchMap}

/-! ### The message -/

/-- One element of `transforms`; a field that is missing reads as the empty string. -/
structure TransformParams where
  mtch : Option CString
  replace : Option CString

/-- One element of `patches`; `transforms` is `none` if there is no such array. -/
structure PatchParams where
  file : Option CString
  find : Option CString
  transforms : Option (List TransformParams)

def emptyString : CString := .ofBytes []

def TransformParams.decode (t : TransformParams) : CString × CString :=
  (t.mtch.getD emptyString, t.replace.getD emptyString)

def PatchParams.decode (p : PatchParams) : Patch where
  file := p.file.getD emptyString
  find := p.find.getD emptyString
  transforms := (p.transforms.getD []).map TransformParams.decode

/-! ### The loops -/

inductive NullPointer
  | patchList
  | patch
  deriving DecidableEq, Repr

def addTransforms (s : Arena) (patch : Option Ptr) : List (CString × CString) → Arena × Option NullPointer
  | [] => (s, none)
  | (mtch, replace) :: transforms =>
    match patch with
    | none => (s, some .patch)
    | some p => addTransforms (patchAddTransform s p mtch replace) patch transforms

def addPatches (s : Arena) (patchList : Option Ptr) : List Patch → Arena × Option NullPointer
  | [] => (s, none)
  | p :: patches =>
    match patchList with
    | none => (s, some .patchList)
    | some list =>
      let (s, patch) := patchlistAdd s list p.file p.find
      match addTransforms s patch p.transforms with
      | (s, some e) => (s, some e)
      | (s, none) => addPatches s patchList patches

def handlePatches (s : Arena) (plugin : CString) (patches : List Patch) : Arena × Option NullPointer :=
  match patches with
  | [] => (s, none)
  | _ :: _ =>
    let (s, patchList) := hashmapAddKey s plugin
    addPatches s patchList patches

def onPatches (s : Arena) (plugin : CString) (params : Option (List PatchParams)) : Arena × Option NullPointer :=
  handlePatches s plugin ((params.getD []).map PatchParams.decode)

theorem addTransforms_extends (s : Arena) (patch : Option Ptr) (transforms : List (CString × CString)) :
    s.Extends (addTransforms s patch transforms).1 := by
  induction transforms generalizing s with
  | nil => exact Extends.refl s
  | cons t transforms ih =>
    cases patch with
    | none => exact Extends.refl s
    | some p => exact (patchAddTransform_extends p t.1 t.2).trans (ih _)

theorem addPatches_extends (s : Arena) (patchList : Option Ptr) (patches : List Patch) :
    s.Extends (addPatches s patchList patches).1 := by
  induction patches generalizing s with
  | nil => exact Extends.refl s
  | cons p patches ih =>
    cases patchList with
    | none => exact Extends.refl s
    | some list =>
      have h1 := patchlistAdd_extends (s := s) list p.file p.find
      have h2 := addTransforms_extends (patchlistAdd s list p.file p.find).1 (patchlistAdd s list p.file p.find).2
        p.transforms
      simp only [addPatches]
      split
      · rename_i e
        rw [e] at h2
        exact h1.trans h2
      · rename_i e
        rw [e] at h2
        exact (h1.trans h2).trans (ih _)

theorem handlePatches_extends (s : Arena) (plugin : CString) (patches : List Patch) :
    s.Extends (handlePatches s plugin patches).1 := by
  cases patches with
  | nil => exact Extends.refl s
  | cons p patches => exact (hashmapAddKey_extends plugin).trans (addPatches_extends _ _ _)

/-! ### One call at a time -/

structure Handler where
  plugin : CString
  started : Bool
  patchList : Option Ptr
  patch : Option Ptr
  transforms : List (CString × CString)
  todo : List Patch

namespace Handler

def start (plugin : CString) (params : Option (List PatchParams)) : Handler :=
  ⟨plugin, false, none, none, [], (params.getD []).map PatchParams.decode⟩

def step (s : Arena) (h : Handler) : Arena × Except NullPointer Handler :=
  match h.transforms with
  | (mtch, replace) :: transforms =>
    match h.patch with
    | none => (s, .error .patch)
    | some p => (patchAddTransform s p mtch replace, .ok { h with transforms := transforms })
  | [] =>
    match h.todo with
    | [] => (s, .ok h)
    | p :: todo =>
      if h.started then
        match h.patchList with
        | none => (s, .error .patchList)
        | some list =>
          let (s, patch) := patchlistAdd s list p.file p.find
          (s, .ok { h with patch := patch, transforms := p.transforms, todo := todo })
      else
        let (s, patchList) := hashmapAddKey s h.plugin
        (s, .ok { h with started := true, patchList := patchList })

def finished (h : Handler) : Bool := h.transforms.isEmpty && h.todo.isEmpty

theorem step_extends (s : Arena) (h : Handler) : s.Extends (h.step s).1 := by
  simp only [step]
  split
  · split
    · exact Extends.refl s
    · exact patchAddTransform_extends ..
  · split
    · exact Extends.refl s
    · split
      · split
        · exact Extends.refl s
        · exact patchlistAdd_extends ..
      · exact hashmapAddKey_extends _

theorem step_plugin {s s' h'} (e : h.step s = (s', .ok h')) : h'.plugin = h.plugin := by
  simp only [step] at e
  split at e
  · split at e <;> cases e
    rfl
  · split at e
    · cases e
      rfl
    · split at e
      · split at e <;> cases e
        rfl
      · cases e
        rfl

def rest (s : Arena) (h : Handler) : Arena × Option NullPointer :=
  match addTransforms s h.patch h.transforms with
  | (s, some e) => (s, some e)
  | (s, none) => if h.started then addPatches s h.patchList h.todo else handlePatches s h.plugin h.todo

theorem rest_extends (s : Arena) (h : Handler) : s.Extends (h.rest s).1 := by
  have h1 := addTransforms_extends s h.patch h.transforms
  simp only [rest]
  split
  · rename_i e
    rw [e] at h1
    exact h1
  · rename_i e
    rw [e] at h1
    refine h1.trans ?_
    split
    · exact addPatches_extends _ _ _
    · exact handlePatches_extends _ _ _

theorem rest_start (s : Arena) (plugin : CString) (params : Option (List PatchParams)) :
    (start plugin params).rest s = onPatches s plugin params := rfl

theorem rest_finished {s} (hf : h.finished = true) : h.rest s = (s, none) := by
  obtain ⟨plugin, started, patchList, patch, transforms, todo⟩ := h
  obtain ⟨rfl, rfl⟩ : transforms = [] ∧ todo = [] := by simpa [finished] using hf
  cases started <;> rfl

theorem rest_step (s : Arena) (h : Handler) :
    h.rest s = match h.step s with
      | (s', .ok h') => h'.rest s'
      | (s', .error e) => (s', some e) := by
  obtain ⟨plugin, started, patchList, patch, transforms, todo⟩ := h
  cases transforms with
  | cons t transforms => cases patch <;> rfl
  | nil =>
    cases todo with
    | nil => rfl
    | cons p todo =>
      cases started with
      | false => rfl
      | true => cases patchList <;> rfl

end Handler

/-! ### What a thread adds to the map -/

def Patch.Short (p : Patch) : Prop :=
  p.file.length < 2 ^ 31 ∧ p.find.length < 2 ^ 31 ∧ ∀ t ∈ p.transforms, t.1.length < 2 ^ 31 ∧ t.2.length < 2 ^ 31

instance Patch.decidableShort (p : Patch) : Decidable p.Short := by
  unfold Patch.Short
  infer_instance

structure Handler.Short (h : Handler) : Prop where
  plugin : h.plugin.length < 2 ^ 31
  transforms : ∀ t ∈ h.transforms, t.1.length < 2 ^ 31 ∧ t.2.length < 2 ^ 31
  todo : ∀ p ∈ h.todo, p.Short

def finishList (ps : List Patch) (transforms : List (CString × CString)) (todo : List Patch) : List Patch :=
  (ps.modify (ps.length - 1) fun p => { p with transforms := p.transforms ++ transforms }) ++ todo

theorem finishList_nil (ps todo : List Patch) : finishList ps [] todo = ps ++ todo := by
  have hid : (fun p : Patch => { p with transforms := p.transforms ++ [] }) = id := by
    funext p
    simp
  rw [finishList, hid, modify_id]

private theorem modify_length_concat {α : Type} (f : α → α) (l : List α) (x : α) :
    (l ++ [x]).modify l.length f = l ++ [f x] := by
  induction l with
  | nil => rfl
  | cons y l ih => simpa using ih

theorem finishList_addPatch (ps todo : List Patch) (p : Patch) :
    finishList (ps ++ [⟨p.file, p.find, []⟩]) p.transforms todo = finishList ps [] (p :: todo) := by
  rw [finishList_nil, finishList, length_append, length_singleton, Nat.add_sub_cancel, modify_length_concat]
  simp

theorem finishList_addTransform (ps todo : List Patch) (mtch replace : CString) (transforms : List (CString × CString)) :
    finishList (ps.modify (ps.length - 1) fun p => p.addTransform mtch replace) transforms todo =
      finishList ps ((mtch, replace) :: transforms) todo := by
  rw [finishList, length_modify, modify_modify_eq]
  congr 2
  funext p
  simp [Function.comp, Patch.addTransform]

namespace Handler

def expected (m : PatchMap) (h : Handler) : List Patch := finishList ((m.get h.plugin).getD []) h.transforms h.todo

/-- The thread holds a list pointer that it will use again. -/
def inFlight (h : Handler) : Bool := h.started && !h.todo.isEmpty

structure Ok (st : Store) (h : Handler) : Prop where
  list : h.inFlight = true →
    ∃ (i : Nat) (l : PatchListShm), st.entries[i]? = some (h.plugin, l) ∧ h.patchList = some (listPtr st.valuesOff i)
  patch : h.transforms ≠ [] →
    ∃ (i : Nat) (l : PatchListShm), st.entries[i]? = some (h.plugin, l) ∧ 0 < l.patchCount ∧
      h.patch = some (patchPtr l.patchesOff (l.patchCount - 1))

def adding (h : Handler) : Bool := h.transforms.isEmpty && !h.todo.isEmpty && !h.started

def size (st : Store) (h : Handler) : Nat :=
  let l := st.header h.plugin
  let p := st.patchAt l.patchesOff (l.patchCount - 1)
  transformsSize p.transformCount p.transformCapacity h.transforms +
    (if h.started || h.todo.isEmpty then 0 else st.keySize h.plugin) + patchesSize l.patchCount l.patchCapacity h.todo

/-- What a call that is refused nothing does: the thread is one step nearer to the list it is to leave, entries of other
plugins stay where they are, and the array of lists moves only if a new plugin does not fit. -/
structure StepSpec (h h' : Handler) (st st' : Store) (m m' : PatchMap) : Prop where
  short : h'.Short
  ok : h'.Ok st'
  expected : h'.expected m' = h.expected m
  other : ∀ k, k ≠ h.plugin → m'.get k = m.get k
  entries : ∀ (i : Nat) k l, k ≠ h.plugin → st.entries[i]? = some (k, l) → st'.entries[i]? = some (k, l)
  values : (h.adding = true → h.plugin ∈ m.keys ∨ st.count < st.capacity) → st'.valuesOff = st.valuesOff
  size : st'.used + h'.size st' = st.used + h.size st

variable {s : Arena} {st : Store} {dead : List PatchListShm} {m : PatchMap}

private theorem getD_of_entry (hs : s.Holds st dead m) {i : Nat} {k l}
    (he : st.entries[i]? = some (k, l)) : (m.get k).getD [] = st.readList l ∧ (st.readList l).length = l.patchCount := by
  rw [get_of_getElem? (hs.store.entry he)]
  exact ⟨rfl, by simp [Store.readList]⟩

private theorem size_addTransform {st'} {i : Nat} {l mtch replace} (hs : st.Holds dead m)
    (he : st.entries[i]? = some (h.plugin, l)) (hpos : 0 < l.patchCount)
    (e : st.addTransform l.patchesOff (l.patchCount - 1) mtch replace = st') (hs' : st'.Holds dead m')
    (hent : st'.entries = st.entries) (hr : st'.refusals = st.refusals) :
    st'.used + h.size st' = st.used + size st { h with transforms := (mtch, replace) :: h.transforms } := by
  obtain ⟨hb, hj⟩ := (hs.ok.entry_listOk (mem_of_getElem? he)).slot (show l.patchCount - 1 < l.patchCount by omega)
  have hspn := hs.ok.addTransform_spends hb hj mtch replace
  have hsiz := hs.ok.addTransform_sizes hb hj mtch replace
  rw [e] at hspn hsiz
  obtain ⟨hcnt, hcap⟩ := hsiz hr
  have he' : st'.entries[i]? = some (h.plugin, l) := by
    rw [hent]
    exact he
  simp only [size, hs.header_eq he, hs'.header_eq he', hs.keySize_eq he, hs'.keySize_eq he', transformsSize, hcnt, hcap,
    hspn.used_eq hr]
  omega

private theorem size_addKey {st'} {i : Nat} {p todo}
    (hs : st.Holds dead m) (hle : st.used ≤ shmIpcSize) (e : (st.addKey h.plugin).1 = st') (hs' : st'.Holds dead m')
    (he : st'.entries[i]? = some (h.plugin, st.header h.plugin)) (hr : st'.refusals = st.refusals) :
    st'.used + size st' { h with started := true, transforms := [], todo := p :: todo } =
      st.used + size st { h with started := false, transforms := [], todo := p :: todo } := by
  have hspn := hs.ok.addKey_keySize hle h.plugin
  rw [e] at hspn
  simp only [size, hs'.header_eq he, transformsSize, hspn.used_eq hr, isEmpty_cons, Bool.or_false, ↓reduceIte,
    Bool.false_eq_true]
  omega

private theorem size_addPatch {st'} {i : Nat} {l l' p}
    (hs : st.Holds dead m) (he : st.entries[i]? = some (h.plugin, l))
    (e : (st.addPatch st.valuesOff i p.file p.find).1 = st') (hs' : st'.Holds dead m')
    (hval : st'.valuesOff = st.valuesOff) (he' : st'.entries[i]? = some (h.plugin, l'))
    (hcnt : l'.patchCount = l.patchCount + 1) (hr : st'.refusals = st.refusals) :
    st'.used + size st' { h with started := true, transforms := p.transforms } =
      st.used + size st { h with started := true, transforms := [], todo := p :: h.todo } := by
  obtain ⟨hic, el⟩ := hs.ok.entry_slot he
  obtain ⟨-, el'⟩ := hs'.ok.entry_slot he'
  have hspn := hs.ok.addPatch_spends hs.ok.values hic p.file p.find
  have hsiz := hs.ok.addPatch_sizes hs.ok.values hic p.file p.find
  rw [e] at hspn hsiz
  rw [← hval, ← el', hval, ← el] at hsiz
  obtain ⟨hcap, htc, htcap⟩ := hsiz hr
  rw [← el] at hspn
  simp only [size, hs.header_eq he, hs'.header_eq he', transformsSize, patchesSize, hspn.used_eq hr, hcnt, hcap,
    Nat.add_sub_cancel, htc, htcap, Bool.true_or, ↓reduceIte]
  omega

theorem step_spec (hs : s.Holds st dead m) (hok : h.Ok st) (hshr : h.Short)
    (hr : (h.step s).1.refusals = s.refusals) :
    ∃ s' h' st' m', h.step s = (s', .ok h') ∧ s'.Holds st' dead m' ∧ StepSpec h h' st st' m m' := by
  obtain ⟨plugin, started, patchList, patch, transforms, todo⟩ := h
  cases transforms with
  | cons t transforms =>
    obtain ⟨mtch, replace⟩ := t
    -- a transform goes to the last patch of the list
    obtain ⟨i, l, he, hpos, hpat⟩ := hok.patch (cons_ne_nil _ _)
    obtain rfl : patch = _ := hpat
    have hlt := hshr.transforms (mtch, replace) (mem_cons_self)
    obtain ⟨st', e, hs', hval, hent⟩ := hs.patchAddTransform he (show l.patchCount - 1 < l.patchCount by omega) hlt.1 hlt.2 hr
    obtain ⟨hget, hlen⟩ := getD_of_entry hs he
    refine ⟨_, _, st', _, rfl, hs', ⟨hshr.plugin, fun t ht => hshr.transforms t (mem_cons_of_mem _ ht),
      hshr.todo⟩, ⟨fun hf => ?_, fun _ => ?_⟩, ?_, ?_, ?_, fun _ => hval, ?_⟩
    · obtain ⟨i', l', he', hlist⟩ := hok.list hf
      exact ⟨i', l', by rw [hent]; exact he', by rw [hval]; exact hlist⟩
    · exact ⟨i, l, by rw [hent]; exact he, hpos, rfl⟩
    · simp only [expected, get_modify_self]
      rw [get_of_getElem? (hs.store.entry he), map_some, getD_some, getD_some, ← hlen,
        finishList_addTransform]
    · intro k hk
      exact get_modify_ne hk
    · intro i' k l' _ he'
      rw [hent]
      exact he'
    · exact size_addTransform hs.store he hpos e hs'.store hent (hs'.lay.refusals.symm.trans (hr.trans hs.lay.refusals))
  | nil =>
    cases todo with
    | nil =>
      refine ⟨s, _, st, m, rfl, hs, hshr, hok, rfl, fun _ _ => rfl, fun _ _ _ _ he => he, fun _ => rfl, rfl⟩
    | cons p todo =>
      have hp := hshr.todo p (mem_cons_self)
      cases started with
      | false =>
        obtain ⟨s', st', i, e, e', hs', he, hent, hval⟩ := hs.hashmapAddKey hshr.plugin hr
        refine ⟨s', ⟨plugin, true, some (listPtr st'.valuesOff i), patch, [], p :: todo⟩, st', _, ?_, hs',
          ⟨hshr.plugin, hshr.transforms, hshr.todo⟩, ⟨fun _ => ⟨i, _, he, rfl⟩, fun hne => absurd rfl hne⟩, ?_, ?_,
          ?_, fun hadd => hval (hadd rfl), ?_⟩
        · simp only [step, e]
          rfl
        · simp only [expected, get_addKey_self, getD_some]
        · intro k hk
          exact get_addKey_ne hk
        · intro i' k l' _ he'
          exact hent i' _ he'
        · refine size_addKey (h := ⟨plugin, false, none, patch, [], p :: todo⟩) hs.store hs.lay.used_le (by rw [e'])
            hs'.store he ?_
          rw [← hs'.lay.refusals, ← hs.lay.refusals, ← hr]
          simp only [step, e]
          rfl
      | true =>
        obtain ⟨i, l, he, hlist⟩ := hok.list rfl
        obtain rfl : patchList = _ := hlist
        obtain ⟨s', st', l', e, e', hs', hval, hent, hcnt⟩ := hs.patchlistAdd he hp.1 hp.2.1 hr
        have hi := (List.getElem?_eq_some_iff.1 he).1
        have hself : st'.entries[i]? = some (plugin, l') := by rw [hent, getElem?_set, if_pos rfl, if_pos hi]
        refine ⟨s', ⟨plugin, true, some (listPtr st.valuesOff i), some (patchPtr l'.patchesOff l.patchCount), p.transforms,
          todo⟩, st', _, ?_, hs', ⟨hshr.plugin, hp.2.2, fun q hq => hshr.todo q (mem_cons_of_mem _ hq)⟩,
          ⟨fun _ => ⟨i, l', hself, by rw [hval]⟩, fun _ => ⟨i, l', hself, by omega, ?_⟩⟩, ?_, ?_, ?_, fun _ => hval,
          ?_⟩
        · simp only [step, e]
          rfl
        · rw [hcnt, Nat.add_sub_cancel]
        · simp only [expected, get_modify_self]
          rw [get_of_getElem? (hs.store.entry he), map_some, getD_some, getD_some,
            finishList_addPatch]
        · intro k hk
          exact get_modify_ne hk
        · intro i' k l₂ hk he'
          have hii : i ≠ i' := by
            rintro rfl
            cases he.symm.trans he'
            exact hk rfl
          rw [hent, getElem?_set, if_neg hii]
          exact he'
        · refine size_addPatch (h := ⟨plugin, true, _, _, [], todo⟩) hs.store he e' hs'.store hval hself hcnt ?_
          rw [← hs'.lay.refusals, ← hs.lay.refusals, ← hr]
          simp only [step, e]
          rfl

end Handler

end CloudeLoader
