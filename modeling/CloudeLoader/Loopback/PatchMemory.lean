import CloudeLoader.Lib.Heap
import CloudeLoader.Loopback.FileMatches

/-!
# The memory of the patching (`resource_transformer.cc`, `resource_matcher.cc`)

`find_file_matches` allocates the two arrays of the pool, which grow together, and for the matches an array of find
patterns, an array of transforms, and two arrays for each of them.
-/

namespace CloudeLoader.PatchMemory

open ByteMemory Arena Alloc Pools List Option Nat

variable (how : Nat → Realloc × Realloc)

def poolOk (c : Nat) : Bool := decide ((how c).1 ≠ .fails) && decide ((how c).2 ≠ .fails)

/-- What may fail, with the outcome of each allocation: the two calls of `realloc` for a capacity of the pool, the two calls of
`calloc` for the matches, and the two arrays of a transform. -/
structure MemEnv where
  env : Env
  pools : Nat → Realloc × Realloc
  lookup : Bool × Bool
  arrays : Nat → Bool × Bool
  reallocOk : env.reallocOk = poolOk pools
  callocOk : env.callocOk = (lookup.1 && lookup.2)
  mallocOk : ∀ i, env.mallocOk i = ((arrays i).1 && (arrays i).2)

/-! ### The pool -/

structure PoolVars where
  pools : Pools
  filePool : Option Nat
  pluginMap : Option Nat

def PoolVars.empty : PoolVars := ⟨.empty, none, none⟩

def freeBoth (v : PoolVars) : Prog Unit := do
  free v.filePool
  free v.pluginMap

def resizePools (v : PoolVars) : Prog (Bool × PoolVars) :=
  match newPoolCapacity v.pools.capacity with
  | none => pure (false, v)
  | some newCapacity => do
    let newCapacity := if newCapacity > maxPoolCapacity then maxPoolCapacity else newCapacity
    let newPool ← Alloc.realloc (how newCapacity).1 v.filePool
    let newMap ← Alloc.realloc (how newCapacity).2 v.pluginMap
    if newPool = none ∨ newMap = none then do
      free newPool
      pure (false, v)
    else
      let pools := { v.pools with
        filePool := CloudeLoader.realloc v.pools.filePool v.pools.capacity newCapacity
        pluginMap := CloudeLoader.realloc v.pools.pluginMap v.pools.capacity newCapacity
        capacity := newCapacity }
      pure (true, ⟨pools, newPool, newMap⟩)

def addFile (v : PoolVars) (file pluginName : Nat) : Prog (Bool × PoolVars) :=
  if v.pools.fileCount ≥ uint32Max then pure (false, v)
  else do
    let r ← if v.pools.fileCount ≥ v.pools.capacity then resizePools how v else pure (true, v)
    if r.1 then
      let pools := r.2.pools
      pure (true, { r.2 with
        pools := { pools.addFileEntry pools.fileCount file pluginName with fileCount := pools.fileCount + 1 } })
    else pure (false, r.2)

def addFiles (s : Arena) (list : PatchListShm) (pluginName : Nat) :
    List Nat → PoolVars → Prog (Bool × PoolVars)
  | [], v => pure (true, v)
  | k :: ks, v => do
    let r ← addFile how v (patchAt s.mem (patchAddr list k)).fileOff pluginName
    if r.1 then addFiles s list pluginName ks r.2 else pure (false, r.2)

def processPatchList (s : Arena) (list : PatchListShm) (pluginName : Nat) (v : PoolVars) :
    Prog (Bool × PoolVars) :=
  if list.patchesOff = 0 then pure (true, v)
  else if list.patchCount > maxPatternCount then pure (false, v)
  else addFiles how s list pluginName (List.range list.patchCount) v

def gather (s : Arena) : List Nat → PoolVars → Prog (Option PoolVars)
  | [], v => pure (some v)
  | i :: is, v =>
    if strnlen s (s.keyOff i) (maxPluginNameLen + 1) > maxPluginNameLen then do
      freeBoth v
      pure none
    else do
      let r ← processPatchList how s (s.listHeader i) (s.keyOff i) v
      if r.1 then gather s is r.2
      else do
        freeBoth r.2
        pure none

def getFileRegexPool (s : Arena) : Prog (Option PoolVars) :=
  if s.count > maxPatternCount then pure none else gather how s (List.range s.count) .empty

/-! ### The transforms -/

/-- What `get_transform_from_matches` has allocated, and the find patterns and transforms. -/
structure Transforms where
  finds : Option Nat
  transforms : Option Nat
  arrays : List (Option Nat)
  entries : List (Option Nat × TransformData)

def populateTransform (ok : Bool × Bool) : Prog (Option (List (Option Nat))) := do
  let mtches ← malloc ok.1
  let replaces ← malloc ok.2
  if mtches = none ∨ replaces = none then do
    free mtches
    free replaces
    pure none
  else pure (some [mtches, replaces])

def populateAll (ok : Nat → Bool × Bool) (s : Arena) : List (Nat × Nat) → Transforms → Prog (Option Transforms)
  | [], t => pure (some t)
  | (id, i) :: rest, t =>
    match findPatchById s id with
    | none => populateAll ok s rest { t with entries := t.entries ++ [(none, ⟨0, [], []⟩)] }
    | some patch => do
      match ← populateTransform (ok i) with
      | none => do
        freeAll (t.arrays ++ [t.transforms, t.finds])
        pure none
      | some arrays =>
        let entry := (some (patchAt s.mem patch).findOff, transformData s (patchAt s.mem patch))
        populateAll ok s rest { t with arrays := t.arrays ++ arrays, entries := t.entries ++ [entry] }

def getTransformFromMatches (lookup : Bool × Bool) (arrays : Nat → Bool × Bool) (s : Arena) (ids : List Nat) :
    Prog (Option Transforms) := do
  let finds ← malloc lookup.1
  let transforms ← malloc lookup.2
  if finds = none ∨ transforms = none then do
    free finds
    free transforms
    pure none
  else populateAll arrays s ids.zipIdx ⟨finds, transforms, [], []⟩

def handleFilePatches (re : RE2) (m : MemEnv) (s : Arena) (p : Pools) (ids : List Nat) (content : List UInt8)
    (sorted : List Nat) : Prog (Option (List UInt8)) :=
  if content.length > maxFileSize then pure none
  else do
    match ← getTransformFromMatches m.lookup m.arrays s ids with
    | none => pure none
    | some t =>
      let working ← malloc m.env.workingOk
      freeAll (t.arrays ++ [t.transforms, t.finds])
      if working = none then pure none
      else pure (some (sorted.foldl (patchBuffer re m.env.transformOk s p ids t.entries) (content, content.length)).1)

def findFileMatches (re : RE2) (m : MemEnv) (s : Arena) (content : List UInt8) (order sorted : List Nat) :
    Prog (Int × List UInt8) :=
  if content.length > maxFileSize then pure (-1, content)
  else if m.env.sopenOk = false then pure (-1, content)
  else do
    match ← getFileRegexPool m.pools s with
    | none => pure (-1, content)
    | some v =>
      if v.pools.fileCount = 0 ∨ v.filePool = none then do
        freeBoth v
        pure (0, content)
      else
        match re2MultiMatch re m.env.setOk (v.pools.patterns s) content order with
        | none => do
          freeBoth v
          pure (-1, content)
        | some [] => do
          freeBoth v
          pure (0, content)
        | some ids => do
          let out ← handleFilePatches re m s v.pools ids content sorted
          freeBoth v
          match out with
          | none => pure (-1, content)
          | some out => pure (0, out)

/-! ### When only one of the arrays grows -/

/-- The first array could be enlarged and the second not, or the second was moved and the first not enlarged. -/
def Torn (r : Realloc × Realloc) : Prop := r.1 ≠ .fails ∧ r.2 = .fails ∨ r.1 = .fails ∧ r.2 = .moves

/-- The capacities the pool comes to have, as long as both arrays can be enlarged. -/
inductive Grown : Nat → Prop
  | zero : Grown 0
  | grow {c d : Nat} (hc : Grown c) (hd : newPoolCapacity c = some d) (hboth : poolOk how d = true) : Grown d

/-- The arrays are torn when they have to grow beyond `c`. -/
def TornAt (c : Nat) : Prop := 0 < c ∧ ∃ d, newPoolCapacity c = some d ∧ Torn (how d)

/-- With `n` patches to be put into the pool, the arrays are torn on the way. -/
def TornBefore (n : Nat) : Prop := ∃ c < n, Grown how c ∧ TornAt how c

/-- The entry is refused: its name or its list is too long. -/
def refuses (s : Arena) (i : Nat) : Bool :=
  decide (strnlen s (s.keyOff i) (maxPluginNameLen + 1) > maxPluginNameLen) ||
    decide ((s.listHeader i).patchesOff ≠ 0 ∧ (s.listHeader i).patchCount > maxPatternCount)

def gathered (s : Arena) : List Nat → Nat
  | [] => 0
  | i :: is => if refuses s i then 0 else (s.slotsOf i).length + gathered s is

section Grown

variable {how} {c d n : Nat}

theorem Torn.poolOk_eq (h : Torn (how d)) : poolOk how d = false := by
  rcases h with ⟨-, h⟩ | ⟨h, -⟩ <;> simp [poolOk, h]

theorem Grown.le_max (h : Grown how c) : c ≤ maxPoolCapacity := by
  cases h with
  | zero => exact zero_le _
  | grow _ hd _ => exact (newPoolCapacity_spec hd).2

theorem Grown.next_of_lt (hc : Grown how c) (hd : Grown how d) (hlt : d < c) :
    ∃ d', newPoolCapacity d = some d' ∧ poolOk how d' = true ∧ d' ≤ c := by
  -- the two capacities change places in the case that both of them are above the last one
  induction hn : c + d using Nat.strongRecOn generalizing c d with
  | ind n ih =>
    cases hc with
    | zero => omega
    | @grow b _ hb hnew hboth =>
      have hgrow := (newPoolCapacity_spec hnew).1
      rcases lt_trichotomy d b with hdb | rfl | hbd
      · obtain ⟨d', hd', hb', hle⟩ := ih (b + d) (by omega) hb hd hdb rfl
        exact ⟨d', hd', hb', by omega⟩
      · exact ⟨c, hnew, hboth, le_refl _⟩
      · obtain ⟨b', hb', -, hle⟩ := ih (d + b) (by omega) hd hb hbd rfl
        rw [hnew, some.injEq] at hb'
        omega

theorem Grown.not_tornBefore (h : Grown how c) (hn : n ≤ c) : ¬ TornBefore how n := by
  rintro ⟨d, hdn, hd, -, d', hnew, htorn⟩
  obtain ⟨e, he, hboth, -⟩ := h.next_of_lt hd (by omega)
  rw [hnew, some.injEq] at he
  subst he
  cases htorn.poolOk_eq.symm.trans hboth

theorem Grown.not_tornBefore_of_stop (h : Grown how c) (hstop : ∀ d, newPoolCapacity c = some d → poolOk how d = false)
    (htorn : ¬ TornAt how c) : ¬ TornBefore how n := by
  rintro ⟨d, -, hd, hd'⟩
  rcases lt_trichotomy d c with hdc | rfl | hcd
  · obtain ⟨e, he, hboth, -⟩ := h.next_of_lt hd hdc
    obtain ⟨-, d', hnew, ht⟩ := hd'
    rw [hnew, some.injEq] at he
    subst he
    cases ht.poolOk_eq.symm.trans hboth
  · exact htorn hd'
  · obtain ⟨e, he, hboth, -⟩ := hd.next_of_lt h hcd
    rw [hstop e he] at hboth
    cases hboth

end Grown

/-! ### The pool in memory -/

section Pool

variable {how} {s : Arena} {v : PoolVars} {ps : List (Option Nat)} {h : Heap} {n : Nat} {D : Prop}

structure Good (how : Nat → Realloc × Realloc) (v : PoolVars) (ps : List (Option Nat)) (h : Heap) : Prop where
  owns : Owns h (v.filePool :: v.pluginMap :: ps)
  null : v.pools.capacity = 0 → v.filePool = none ∧ v.pluginMap = none
  full : 0 < v.pools.capacity → v.filePool ≠ none ∧ v.pluginMap ≠ none
  grown : Grown how v.pools.capacity
  le : v.pools.fileCount ≤ v.pools.capacity

def Doomed (v : PoolVars) (h : Heap) : Prop := freeBoth v h = none

theorem doomed_of_first {b} (hv : v.filePool = some b) (hb : b ∉ h.live) : Doomed v h := by
  simp only [Doomed, freeBoth, hv]
  show (free (some b) h).bind _ = none
  simp [free, hb]

theorem doomed_of_second {b} (hv : v.pluginMap = some b) (hb : b ∉ h.live) : Doomed v h := by
  simp only [Doomed, freeBoth, hv]
  show (free v.filePool h).bind _ = none
  cases v.filePool with
  | none => simp [free, hb]
  | some c =>
    by_cases hc : c ∈ h.live
    · have hb' : b ∉ (h.remove c).live := fun hmem => hb (mem_of_mem_erase hmem)
      simp [free, hc, hb']
    · simp [free, hc]

/-- The arrays could not be enlarged.  Either they are torn and cannot be freed, or they are as they were. -/
def Stopped (how : Nat → Realloc × Realloc) (v : PoolVars) (ps : List (Option Nat)) (h : Heap) : Prop :=
  TornAt how v.pools.capacity ∧ Doomed v h ∨
    ¬ TornAt how v.pools.capacity ∧ (∀ d, newPoolCapacity v.pools.capacity = some d → poolOk how d = false) ∧
      Owns h (v.filePool :: v.pluginMap :: ps)

theorem TornAt.iff_of_new {c d} (hnew : newPoolCapacity c = some d) : TornAt how c ↔ 0 < c ∧ Torn (how d) := by
  simp only [TornAt, hnew, some.injEq, exists_eq_left']

theorem Good.capacity_pos {b} (hg : Good how v ps h) (hv : v.filePool = some b ∨ v.pluginMap = some b) :
    0 < v.pools.capacity := by
  by_contra hpos
  obtain ⟨hpool, hmap⟩ := hg.null (by omega)
  rw [hpool, hmap] at hv
  simp at hv

theorem Good.stopped_first {c y h'} (hg : Good how v ps h) (hnew : newPoolCapacity v.pools.capacity = some c)
    (hfail : (how c).1 = .fails) (hown : Owns h' (some y :: v.filePool :: ps))
    (hold : ∀ b, v.pluginMap = some b → (how c).2 = .inPlace ∧ y = b ∧ h' = h ∨ (how c).2 = .moves ∧ b ∉ h'.live) :
    Stopped how v ps h' := by
  have hstop : ∀ d, newPoolCapacity v.pools.capacity = some d → poolOk how d = false := by
    intro d hd
    rw [hnew, some.injEq] at hd
    simp [← hd, poolOk, hfail]
  cases hmap : v.pluginMap with
  | none =>
    have hzero : v.pools.capacity = 0 := by
      by_contra hpos
      exact (hg.full (by omega)).2 hmap
    refine .inr ⟨fun ht => ?_, hstop, ?_⟩
    · have := ht.1
      omega
    · rw [hmap, (hg.null hzero).1]
      exact hown.tail.tail
  | some b =>
    rcases hold b hmap with ⟨hplc, -, rfl⟩ | ⟨hmov, hb⟩
    · refine .inr ⟨fun ht => ?_, hstop, hg.owns⟩
      rcases ((TornAt.iff_of_new hnew).1 ht).2 with ⟨hne, -⟩ | ⟨-, hmov⟩
      · exact hne hfail
      · cases hplc.symm.trans hmov
    · exact .inl ⟨(TornAt.iff_of_new hnew).2 ⟨hg.capacity_pos (.inr hmap), .inr ⟨hfail, hmov⟩⟩, doomed_of_second hmap hb⟩

theorem Good.stopped_second {c x h'} (hg : Good how v ps h) (hnew : newPoolCapacity v.pools.capacity = some c)
    (hok : (how c).1 ≠ .fails) (hfail : (how c).2 = .fails) (hown : Owns h' (some x :: v.pluginMap :: ps))
    (hold : ∀ b, v.filePool = some b → (how c).1 = .inPlace ∧ x = b ∧ h' = h ∨ (how c).1 = .moves ∧ b ∉ h'.live) :
    Stopped how v ps (h'.remove x) := by
  have hstop : ∀ d, newPoolCapacity v.pools.capacity = some d → poolOk how d = false := by
    intro d hd
    rw [hnew, some.injEq] at hd
    simp [← hd, poolOk, hfail]
  cases hpool : v.filePool with
  | none =>
    have hzero : v.pools.capacity = 0 := by
      by_contra hpos
      exact (hg.full (by omega)).1 hpool
    refine .inr ⟨fun ht => ?_, hstop, ?_⟩
    · have := ht.1
      omega
    · rw [hpool]
      exact hown.remove
  | some b =>
    refine .inl ⟨(TornAt.iff_of_new hnew).2 ⟨hg.capacity_pos (.inl hpool), .inl ⟨hok, hfail⟩⟩, doomed_of_first hpool ?_⟩
    rcases hold b hpool with ⟨-, rfl, -⟩ | ⟨-, hb⟩
    · exact notMem_remove
    · exact fun hmem => hb (mem_of_mem_erase hmem)

theorem resizePools_spec (hg : Good how v ps h) :
    wp D (resizePools how v) (fun r h' =>
      (r.1 = true ∧ Good how r.2 ps h' ∧ v.pools.resizePools (poolOk how) = some r.2.pools ∧
        v.pools.capacity < r.2.pools.capacity ∧ r.2.pools.fileCount = v.pools.fileCount) ∨
      (r = (false, v) ∧ v.pools.resizePools (poolOk how) = none ∧ Stopped how v ps h')) h := by
  unfold PatchMemory.resizePools Pools.resizePools
  cases hnew : newPoolCapacity v.pools.capacity with
  | none =>
    refine .inr ⟨rfl, rfl, .inr ⟨?_, ?_, hg.owns⟩⟩
    · rintro ⟨-, d, hd, -⟩
      cases hnew.symm.trans hd
    · intro d hd
      cases hnew.symm.trans hd
  | some c =>
    obtain ⟨hlt, hmax⟩ := newPoolCapacity_spec hnew
    simp only [if_neg (not_lt.2 hmax)]
    have hswap : ∀ {h' : Heap} {p q : Option Nat}, Owns h' (p :: q :: ps) → Owns h' (q :: p :: ps) := fun hown =>
      hown.perm (List.Perm.swap ..)
    refine wp_bind.2 (wp_realloc hg.owns (fun hfail => ?_) fun hok x h₁ hown₁ hold₁ => ?_)
    · have hfal : poolOk how c = false := by simp [poolOk, hfail]
      rw [if_neg (by simp [hfal])]
      refine wp_bind.2 (wp_realloc (hswap hg.owns) (fun hfail' => ?_) fun hok' y h₂ hown₂ hold₂ => ?_)
      · refine .inr ⟨rfl, rfl, .inr ⟨fun ht => ?_, fun d hd => ?_, hg.owns⟩⟩
        · rcases ((TornAt.iff_of_new hnew).1 ht).2 with ⟨hne, -⟩ | ⟨-, hmov⟩
          · exact hne hfail
          · cases hfail'.symm.trans hmov
        · rw [hnew, some.injEq] at hd
          rwa [← hd]
      · exact .inr ⟨rfl, rfl, hg.stopped_first hnew hfail hown₂ hold₂⟩
    · refine wp_bind.2 (wp_realloc (hswap hown₁) (fun hfail' => ?_) fun hok' y h₂ hown₂ _ => ?_)
      · have hfal : poolOk how c = false := by simp [poolOk, hfail']
        rw [if_pos (.inr rfl), if_neg (by simp [hfal])]
        refine wp_bind.2 ((wp_free_some (owns_cons_some.1 hown₁).1).2 (.inr ⟨rfl, rfl, ?_⟩))
        exact hg.stopped_second hnew hok hfail' hown₁ hold₁
      · have htrue : poolOk how c = true := by simp [poolOk, hok, hok']
        rw [if_pos htrue]
        refine .inl ⟨rfl, ⟨hswap hown₂, fun hzero => ?_, fun _ => by simp, hg.grown.grow hnew htrue, ?_⟩, rfl, hlt, rfl⟩
        · exact absurd (show c = 0 from hzero) (by omega)
        · exact le_trans hg.le (le_of_lt hlt)

/-- A patch could not be put into the pool.  If the arrays are torn on the way to `n` patches, they are by now. -/
def Failed (how : Nat → Realloc × Realloc) (n : Nat) (v : PoolVars) (ps : List (Option Nat)) (h : Heap) : Prop :=
  TornBefore how n ∧ Doomed v h ∨ ¬ TornBefore how n ∧ Owns h (v.filePool :: v.pluginMap :: ps)

theorem Good.failed {h'} (hg : Good how v ps h) (hn : v.pools.capacity < n) (hs : Stopped how v ps h') :
    Failed how n v ps h' := by
  rcases hs with ⟨htorn, hdmd⟩ | ⟨htorn, hstop, hown⟩
  · exact .inl ⟨⟨_, hn, hg.grown, htorn⟩, hdmd⟩
  · exact .inr ⟨hg.grown.not_tornBefore_of_stop hstop htorn, hown⟩

theorem Good.fileCount_lt (hg : Good how v ps h) : ¬ v.pools.fileCount ≥ uint32Max := by
  have hle := hg.le
  have hmax := hg.grown.le_max
  unfold maxPoolCapacity at hmax
  unfold uint32Max
  omega

theorem addFile_spec (hg : Good how v ps h) (hn : v.pools.fileCount < n) (file pluginName : Nat) :
    wp D (addFile how v file pluginName) (fun r h' =>
      (r.1 = true ∧ Good how r.2 ps h' ∧ v.pools.addFile (poolOk how) file pluginName = some r.2.pools ∧
        r.2.pools.fileCount = v.pools.fileCount + 1) ∨
      (r.1 = false ∧ v.pools.addFile (poolOk how) file pluginName = none ∧ Failed how n r.2 ps h')) h := by
  unfold PatchMemory.addFile Pools.addFile
  rw [if_neg hg.fileCount_lt, if_neg hg.fileCount_lt]
  by_cases hfull : v.pools.fileCount ≥ v.pools.capacity
  · simp only [if_pos hfull]
    have hcap : v.pools.capacity < n := by omega
    refine wp_bind.2 (wp_mono (resizePools_spec hg) ?_)
    rintro ⟨ok, w⟩ h' (⟨hok, hw, hval, hlt, hcnt⟩ | ⟨hfail, hval, hstp⟩)
    · obtain rfl : ok = true := hok
      rw [hval]
      refine .inl ⟨rfl, ⟨hw.owns, hw.null, hw.full, hw.grown, ?_⟩, rfl, ?_⟩
      · have hle := hg.le
        show w.pools.fileCount + 1 ≤ w.pools.capacity
        dsimp only at hcnt hlt
        omega
      · exact congrArg (· + 1) hcnt
    · obtain ⟨rfl, rfl⟩ := Prod.mk.inj hfail
      rw [hval]
      exact .inr ⟨rfl, rfl, hg.failed hcap hstp⟩
  · simp only [if_neg hfull]
    refine .inl ⟨rfl, ⟨hg.owns, hg.null, hg.full, hg.grown, ?_⟩, rfl, rfl⟩
    show v.pools.fileCount + 1 ≤ v.pools.capacity
    omega

theorem addFiles_spec {list pluginName ks} (hg : Good how v ps h) (hn : v.pools.fileCount + ks.length ≤ n) :
    wp D (addFiles how s list pluginName ks v) (fun r h' =>
      (r.1 = true ∧ Good how r.2 ps h' ∧ ks.foldlM (fun p k =>
          p.addFile (poolOk how) (patchAt s.mem (patchAddr list k)).fileOff pluginName) v.pools = some r.2.pools ∧
        r.2.pools.fileCount = v.pools.fileCount + ks.length) ∨
      (r.1 = false ∧ ks.foldlM (fun p k =>
          p.addFile (poolOk how) (patchAt s.mem (patchAddr list k)).fileOff pluginName) v.pools = none ∧
        Failed how n r.2 ps h')) h := by
  induction ks generalizing v h with
  | nil => exact .inl ⟨rfl, hg, rfl, rfl⟩
  | cons k ks ih =>
    rw [length_cons] at hn ⊢
    simp only [addFiles, foldlM_cons]
    refine wp_bind.2 (wp_mono (addFile_spec hg (n := n) (by omega) _ _) ?_)
    rintro ⟨ok, w⟩ h' (⟨hok, hw, hval, hcnt⟩ | ⟨hok, hval, hfld⟩)
    · obtain rfl : ok = true := hok
      rw [hval]
      dsimp only at hcnt
      refine wp_mono (ih (v := w) hw (by omega)) ?_
      rintro r h'' (⟨hr, hgood, hfold, hc⟩ | hr)
      · exact .inl ⟨hr, hgood, hfold, by omega⟩
      · exact .inr hr
    · obtain rfl : ok = false := hok
      rw [hval, if_neg (by simp)]
      exact .inr ⟨rfl, rfl, hfld⟩

theorem Failed.freeBoth {β : Type} {a : β} {Q : β → Heap → Prop} (hf : Failed how n v ps h)
    (hQ : ∀ h', ¬ TornBefore how n → Owns h' ps → Q a h') : wp (TornBefore how n) (do freeBoth v; pure a) Q h := by
  rcases hf with ⟨htorn, hdmd⟩ | ⟨hno, hown⟩
  · refine wp_bind.2 ?_
    unfold wp
    rw [hdmd]
    exact htorn
  · exact wp_bind.2 (wp_bind.2 (wp_free hown fun _ hown' => wp_free hown' fun h' hown'' => hQ h' hno hown''))

theorem Good.failed_of_le (hg : Good how v ps h) (hn : n ≤ v.pools.fileCount) : Failed how n v ps h :=
  .inr ⟨hg.grown.not_tornBefore (le_trans hn hg.le), hg.owns⟩

theorem processPatchList_spec {i} (hg : Good how v ps h)
    (hname : ¬ strnlen s (s.keyOff i) (maxPluginNameLen + 1) > maxPluginNameLen)
    (hn : if refuses s i then n = v.pools.fileCount else v.pools.fileCount + (s.slotsOf i).length ≤ n) :
    wp D (processPatchList how s (s.listHeader i) (s.keyOff i) v) (fun r h' =>
      (r.1 = true ∧ refuses s i = false ∧ Good how r.2 ps h' ∧
        CloudeLoader.processPatchList (poolOk how) s (s.listHeader i) (s.keyOff i) v.pools = some r.2.pools ∧
        r.2.pools.fileCount = v.pools.fileCount + (s.slotsOf i).length) ∨
      (r.1 = false ∧ CloudeLoader.processPatchList (poolOk how) s (s.listHeader i) (s.keyOff i) v.pools = none ∧
        Failed how n r.2 ps h')) h := by
  unfold PatchMemory.processPatchList CloudeLoader.processPatchList
  by_cases hoff : (s.listHeader i).patchesOff = 0
  · have hslt : s.slotsOf i = [] := by simp [slotsOf, hoff]
    rw [if_pos hoff, if_pos hoff, hslt]
    exact .inl ⟨rfl, by simp [refuses, hname, hoff], hg, rfl, rfl⟩
  · rw [if_neg hoff, if_neg hoff]
    by_cases hcnt : (s.listHeader i).patchCount > maxPatternCount
    · have href : refuses s i = true := by simp [refuses, hoff, hcnt]
      rw [if_pos href] at hn
      rw [if_pos hcnt, if_pos hcnt]
      exact .inr ⟨rfl, rfl, hg.failed_of_le (le_of_eq hn)⟩
    · have href : refuses s i = false := by simp only [refuses, hname, hcnt]; simp
      have hslt : (s.slotsOf i).length = (s.listHeader i).patchCount := by simp [slotsOf, hoff]
      rw [href, hslt] at hn
      rw [if_neg hcnt, if_neg hcnt, hslt]
      refine wp_mono (addFiles_spec (n := n) hg (by rwa [length_range])) ?_
      rintro r h' (⟨hr, hgood, hval, hc⟩ | hr)
      · exact .inl ⟨hr, href, hgood, hval, by rwa [length_range] at hc⟩
      · exact .inr hr

def gatherValue (how : Nat → Realloc × Realloc) (s : Arena) (is : List Nat) (p : Pools) : Option Pools :=
  is.foldlM (fun p i =>
    if strnlen s (s.keyOff i) (maxPluginNameLen + 1) > maxPluginNameLen then none
    else CloudeLoader.processPatchList (poolOk how) s (s.listHeader i) (s.keyOff i) p) p

theorem gather_spec {is} (hg : Good how v ps h) (hn : v.pools.fileCount + gathered s is = n) :
    wp (TornBefore how n) (gather how s is v) (fun r h' => ¬ TornBefore how n ∧
      r.map PoolVars.pools = gatherValue how s is v.pools ∧ r.elim (Owns h' ps) (Good how · ps h')) h := by
  induction is generalizing v h with
  | nil =>
    exact ⟨hg.grown.not_tornBefore (le_trans (le_of_eq hn.symm) hg.le), rfl, hg⟩
  | cons i is ih =>
    simp only [gather, gatherValue, foldlM_cons]
    by_cases hname : strnlen s (s.keyOff i) (maxPluginNameLen + 1) > maxPluginNameLen
    · have href : refuses s i = true := by simp [refuses, hname]
      rw [gathered, if_pos href] at hn
      rw [if_pos hname, if_pos hname]
      exact (hg.failed_of_le (le_of_eq hn.symm)).freeBoth fun h' hno hown => ⟨hno, rfl, hown⟩
    · rw [if_neg hname, if_neg hname]
      have hbnd : if refuses s i then n = v.pools.fileCount else v.pools.fileCount + (s.slotsOf i).length ≤ n := by
        rw [gathered] at hn
        split at hn
        · rename_i hr
          rw [if_pos hr]
          omega
        · rename_i hr
          rw [if_neg hr]
          omega
      refine wp_bind.2 (wp_mono (processPatchList_spec hg hname hbnd) ?_)
      rintro ⟨ok, w⟩ h' (⟨hok, href, hw, hval, hcnt⟩ | ⟨hok, hval, hfld⟩)
      · obtain rfl : ok = true := hok
        rw [gathered, href, if_neg (by decide)] at hn
        dsimp only at hcnt
        rw [hval]
        exact ih (v := w) hw (by omega)
      · obtain rfl : ok = false := hok
        rw [hval, if_neg (by simp)]
        exact hfld.freeBoth fun h' hno hown => ⟨hno, rfl, hown⟩

def poolSize (s : Arena) : Nat := if s.count > maxPatternCount then 0 else gathered s (List.range s.count)

theorem getFileRegexPool_spec (hown : Owns h ps) :
    wp (TornBefore how (poolSize s)) (getFileRegexPool how s) (fun r h' => ¬ TornBefore how (poolSize s) ∧
      r.map PoolVars.pools = CloudeLoader.getFileRegexPool (poolOk how) s ∧ r.elim (Owns h' ps) (Good how · ps h')) h := by
  unfold PatchMemory.getFileRegexPool CloudeLoader.getFileRegexPool poolSize
  by_cases hcnt : s.count > maxPatternCount
  · rw [if_pos hcnt, if_pos hcnt, if_pos hcnt]
    refine ⟨?_, rfl, hown⟩
    rintro ⟨c, hc, -⟩
    omega
  · rw [if_neg hcnt, if_neg hcnt, if_neg hcnt]
    exact gather_spec ⟨hown, fun _ => ⟨rfl, rfl⟩, fun hpos => absurd hpos (by decide), .zero, le_refl _⟩ (zero_add _)

end Pool

/-! ### The transforms in memory -/

section Transforms

variable {s : Arena} {ps : List (Option Nat)} {h : Heap} {D : Prop}

theorem populateTransform_spec {ok} (hown : Owns h ps) : wp D (populateTransform ok) (fun r h' =>
      (∃ arrays, r = some arrays ∧ (ok.1 && ok.2) = true ∧ Owns h' (arrays ++ ps)) ∨
      (r = none ∧ (ok.1 && ok.2) = false ∧ Owns h' ps)) h := by
  refine wp_bind.2 (wp_malloc hown fun p h₁ hp hown₁ => wp_bind.2 (wp_malloc hown₁ fun q h₂ hq hown₂ => ?_))
  have hswap : Owns h₂ (p :: q :: ps) := hown₂.perm (List.Perm.swap ..)
  by_cases hnull : p = none ∨ q = none
  · rw [if_pos hnull]
    refine wp_bind.2 (wp_free hswap fun _ hown₃ => wp_bind.2 (wp_free hown₃ fun h₄ hown₄ => .inr ⟨rfl, ?_, hown₄⟩))
    rcases hnull with rfl | rfl
    · simp [← hp]
    · simp [← hq]
  · rw [if_neg hnull]
    rw [not_or, ← ne_eq, ← ne_eq, ne_none_iff_isSome, ne_none_iff_isSome] at hnull
    exact .inl ⟨[p, q], rfl, by rw [← hp, ← hq, hnull.1, hnull.2]; rfl, hswap⟩

def entryOf (ok : Nat → Bool) (s : Arena) (x : Nat × Nat) : Option (Option Nat × TransformData) :=
  match findPatchById s x.1 with
  | none => some (none, ⟨0, [], []⟩)
  | some patch =>
    (CloudeLoader.populateTransform (ok x.2) s (patchAt s.mem patch)).map fun t => (some (patchAt s.mem patch).findOff, t)

def Transforms.Owned (t : Transforms) (ps : List (Option Nat)) (h : Heap) : Prop :=
  Owns h (t.arrays ++ [t.transforms, t.finds] ++ ps)

theorem Transforms.Owned.add {t : Transforms} {arrays : List (Option Nat)} {entries : List (Option Nat × TransformData)}
    (hown : Owns h (arrays ++ (t.arrays ++ [t.transforms, t.finds] ++ ps))) :
    Owned { t with arrays := t.arrays ++ arrays, entries := entries } ps h := by
  refine hown.perm ?_
  have hcomm : (arrays ++ t.arrays ++ ([t.transforms, t.finds] ++ ps)).Perm (t.arrays ++ arrays ++ ([t.transforms, t.finds] ++ ps)) :=
    perm_append_comm.append_right _
  simpa only [append_assoc] using hcomm

theorem populateAll_spec {ok : Nat → Bool × Bool} {rest : List (Nat × Nat)} {t : Transforms} (ht : t.Owned ps h) :
    wp D (populateAll ok s rest t) (fun r h' =>
      (∃ t' entries, r = some t' ∧ rest.mapM (entryOf (fun i => (ok i).1 && (ok i).2) s) = some entries ∧
        t'.entries = t.entries ++ entries ∧ t'.Owned ps h') ∨
      (r = none ∧ rest.mapM (entryOf (fun i => (ok i).1 && (ok i).2) s) = none ∧ Owns h' ps)) h := by
  induction rest generalizing t h with
  | nil => exact .inl ⟨t, [], rfl, rfl, (append_nil _).symm, ht⟩
  | cons x rest ih =>
    obtain ⟨id, i⟩ := x
    simp only [populateAll, mapM_cons, entryOf]
    cases hpat : findPatchById s id with
    | none =>
      refine wp_mono (ih ht) ?_
      rintro r h' (⟨t', entries, rfl, hval, hent, hown⟩ | ⟨rfl, hval, hown⟩)
      · rw [hval]
        exact .inl ⟨t', _, rfl, rfl, by rw [hent]; simp, hown⟩
      · rw [hval]
        exact .inr ⟨rfl, rfl, hown⟩
    | some patch =>
      refine wp_bind.2 (wp_mono (populateTransform_spec ht) ?_)
      rintro _ h₁ (⟨arrays, rfl, hok, hown⟩ | ⟨rfl, hok, hown⟩)
      · simp only [CloudeLoader.populateTransform, hok, if_true, map_some]
        refine wp_mono (ih (Transforms.Owned.add hown)) ?_
        rintro r h' (⟨t', entries, rfl, hval, hent, hown'⟩ | ⟨rfl, hval, hown'⟩)
        · rw [hval]
          exact .inl ⟨t', _, rfl, rfl, by rw [hent]; simp, hown'⟩
        · rw [hval]
          exact .inr ⟨rfl, rfl, hown'⟩
      · simp only [CloudeLoader.populateTransform, hok]
        exact wp_bind.2 (wp_freeAll hown fun h' hown' => .inr ⟨rfl, rfl, hown'⟩)

theorem getTransformFromMatches_spec {lookup} {arrays : Nat → Bool × Bool} {ids} (hown : Owns h ps) :
    wp D (getTransformFromMatches lookup arrays s ids) (fun r h' =>
      (∃ t, r = some t ∧ t.Owned ps h' ∧ CloudeLoader.getTransformFromMatches (lookup.1 && lookup.2)
        (fun i => (arrays i).1 && (arrays i).2) s ids = some t.entries) ∨
      (r = none ∧ Owns h' ps ∧ CloudeLoader.getTransformFromMatches (lookup.1 && lookup.2)
        (fun i => (arrays i).1 && (arrays i).2) s ids = none)) h := by
  have hval : ∀ ok, CloudeLoader.getTransformFromMatches ok (fun i => (arrays i).1 && (arrays i).2) s ids =
      if ok then ids.zipIdx.mapM (entryOf (fun i => (arrays i).1 && (arrays i).2) s) else none := fun _ => rfl
  refine wp_bind.2 (wp_malloc hown fun p h₁ hp hown₁ => wp_bind.2 (wp_malloc hown₁ fun q h₂ hq hown₂ => ?_))
  by_cases hnull : p = none ∨ q = none
  · have hfal : (lookup.1 && lookup.2) = false := by
      rcases hnull with rfl | rfl
      · simp [← hp]
      · simp [← hq]
    rw [if_pos hnull, hfal]
    refine wp_bind.2 (wp_free (hown₂.perm (List.Perm.swap ..)) fun _ hown₃ => wp_bind.2 (wp_free hown₃ fun h₄ hown₄ => ?_))
    exact .inr ⟨rfl, hown₄, rfl⟩
  · rw [if_neg hnull]
    rw [not_or, ← ne_eq, ← ne_eq, ne_none_iff_isSome, ne_none_iff_isSome] at hnull
    rw [← hp, ← hq, hnull.1, hnull.2]
    refine wp_mono (populateAll_spec hown₂) ?_
    rintro r h' (⟨t', entries, rfl, hmap, hent, hown'⟩ | ⟨rfl, hmap, hown'⟩)
    · exact .inl ⟨t', rfl, hown', by rw [hent]; exact hmap⟩
    · exact .inr ⟨rfl, hown', hmap⟩

theorem handleFilePatches_spec {re m p ids sorted content} (hown : Owns h ps) :
    wp D (handleFilePatches re m s p ids content sorted) (fun r h' =>
      r = CloudeLoader.handleFilePatches re m.env s p ids content sorted ∧ Owns h' ps) h := by
  have hmal : m.env.mallocOk = fun i => (m.arrays i).1 && (m.arrays i).2 := funext m.mallocOk
  unfold PatchMemory.handleFilePatches CloudeLoader.handleFilePatches
  by_cases hsize : content.length > maxFileSize
  · rw [if_pos hsize, if_pos hsize]
    exact ⟨rfl, hown⟩
  rw [if_neg hsize, if_neg hsize, m.callocOk, hmal]
  refine wp_bind.2 (wp_mono (getTransformFromMatches_spec hown) ?_)
  rintro _ h₁ (⟨t, rfl, ht, hval⟩ | ⟨rfl, hown₁, hval⟩)
  · rw [hval]
    refine wp_bind.2 (wp_malloc ht fun w h₂ hw hown₂ => wp_bind.2 (wp_freeAll hown₂.tail fun h₃ hown₃ => ?_))
    by_cases hnull : w = none
    · rw [if_pos hnull]
      exact ⟨by simp [← hw, hnull], hown₃⟩
    · rw [if_neg hnull]
      exact ⟨by simp [← hw, ne_none_iff_isSome.1 hnull], hown₃⟩
  · rw [hval]
    exact ⟨rfl, hown₁⟩

end Transforms

/-! ### The whole of it -/

/-- The arrays of the pool are torn in `find_file_matches`. -/
def Tears (m : MemEnv) (s : Arena) (content : List UInt8) : Prop :=
  content.length ≤ maxFileSize ∧ m.env.sopenOk = true ∧ TornBefore m.pools (poolSize s)

theorem findFileMatches_spec {re m s content path order sorted ps h} (hown : Owns h ps) :
    wp (Tears m s content) (findFileMatches re m s content order sorted) (fun r h' => ¬ Tears m s content ∧
      r = CloudeLoader.findFileMatches re m.env s path content order sorted ∧ Owns h' ps) h := by
  unfold PatchMemory.findFileMatches CloudeLoader.findFileMatches selectPatches
  by_cases hsize : content.length > maxFileSize
  · simp only [if_pos hsize]
    exact ⟨fun ht => absurd ht.1 (not_le.2 hsize), rfl, hown⟩
  by_cases hopen : m.env.sopenOk = false
  · simp only [if_neg hsize, if_pos hopen]
    exact ⟨fun ht => by simp [ht.2.1] at hopen, rfl, hown⟩
  simp only [if_neg hsize, if_neg hopen]
  have hiff : Tears m s content ↔ TornBefore m.pools (poolSize s) :=
    ⟨fun ht => ht.2.2, fun ht => ⟨not_lt.1 hsize, by simpa using hopen, ht⟩⟩
  rw [m.reallocOk, hiff]
  refine wp_bind.2 (wp_mono (getFileRegexPool_spec hown) ?_)
  rintro r h₁ ⟨hno, hval, hgood⟩
  cases r with
  | none =>
    rw [← hval]
    exact ⟨hno, rfl, hgood⟩
  | some v =>
    have hg : Good m.pools v ps h₁ := hgood
    have hfree : ∀ (a : Int × List UInt8) {h' : Heap}, Owns h' (v.filePool :: v.pluginMap :: ps) →
        wp (TornBefore m.pools (poolSize s)) (do freeBoth v; pure a)
          (fun r h'' => ¬ TornBefore m.pools (poolSize s) ∧ r = a ∧ Owns h'' ps) h' := fun a h' hown' =>
      Failed.freeBoth (.inr ⟨hno, hown'⟩) fun _ hno' hown'' => ⟨hno', rfl, hown''⟩
    have hnull : v.filePool = none → v.pools.fileCount = 0 := fun hnone => by
      have hle := hg.le
      by_contra hpos
      exact (hg.full (by omega)).1 hnone
    rw [← hval]
    simp only [map_some]
    by_cases hzero : v.pools.fileCount = 0
    · rw [if_pos (.inl hzero), if_pos hzero]
      exact hfree _ hg.owns
    · rw [if_neg (not_or.2 ⟨hzero, fun hn => hzero (hnull hn)⟩), if_neg hzero]
      cases re2MultiMatch re m.env.setOk (v.pools.patterns s) content order with
      | none => exact hfree _ hg.owns
      | some ids =>
        cases ids with
        | nil => exact hfree _ hg.owns
        | cons id ids =>
          refine wp_bind.2 (wp_mono (handleFilePatches_spec hg.owns) ?_)
          rintro r h₂ ⟨hr, hown₂⟩
          dsimp only
          rw [← hr]
          cases r with
          | none => exact hfree _ hown₂
          | some out => exact hfree _ hown₂

theorem findFileMatches_heap {re m s content path order sorted ps h} (hown : Owns h ps) :
    (Tears m s content → findFileMatches re m s content order sorted h = none) ∧
      (¬ Tears m s content → ∃ h', findFileMatches re m s content order sorted h =
        some (CloudeLoader.findFileMatches re m.env s path content order sorted, h') ∧ Owns h' ps) := by
  have hspec := @findFileMatches_spec re m s content path order sorted ps h hown
  unfold wp at hspec
  split at hspec
  · next hnone => exact ⟨fun _ => hnone, fun hno => absurd hspec hno⟩
  · next r h' hsome =>
    obtain ⟨hno, rfl, hown'⟩ := hspec
    exact ⟨fun ht => absurd ht hno, fun _ => ⟨h', hsome, hown'⟩⟩

end CloudeLoader.PatchMemory
