import CloudeLoader.Arena.Refinement
import CloudeLoader.Lib.Loops

/-!
# The patterns of all patches (`resource_transformer.cc`, `resource_matcher.cc`)

When a file is requested, `get_file_regex_pool` gathers the file patterns of all patches of the arena in one pool,
together with the names of the plugins they belong to.
-/

namespace CloudeLoader

open ByteMemory Arena Loops List Option

def maxPoolCapacity : Nat := 1000000

def maxPatternCount : Nat := 100000

def maxPluginNameLen : Nat := 1024

def uint32Max : Nat := 2 ^ 32 - 1

def safeMulU32 (a b : Nat) : Option Nat := if b ≠ 0 ∧ a > uint32Max / b then none else some (a * b)

structure MatchPluginMap where
  matchId : Nat
  pluginName : Nat
  deriving DecidableEq

structure Pools where
  filePool : Nat → Option Nat
  pluginMap : Nat → Option MatchPluginMap
  capacity : Nat
  fileCount : Nat

def realloc {α : Type} (slots : Nat → Option α) (capacity newCapacity : Nat) : Nat → Option α := fun i =>
  if i < min capacity newCapacity then slots i else none

namespace Pools

def empty : Pools := ⟨fun _ => none, fun _ => none, 0, 0⟩

def newPoolCapacity (capacity : Nat) : Option Nat :=
  if capacity = 0 then some 16
  else if capacity > maxPoolCapacity / 2 then none
  else safeMulU32 capacity 2

def resizePools (reallocOk : Nat → Bool) (p : Pools) : Option Pools :=
  match newPoolCapacity p.capacity with
  | none => none
  | some newCapacity =>
    let newCapacity := if newCapacity > maxPoolCapacity then maxPoolCapacity else newCapacity
    if reallocOk newCapacity then
      some { p with
        filePool := realloc p.filePool p.capacity newCapacity
        pluginMap := realloc p.pluginMap p.capacity newCapacity
        capacity := newCapacity }
    else none

def addFileEntry (p : Pools) (index file pluginName : Nat) : Pools :=
  { p with
    filePool := Function.update p.filePool index (some file)
    pluginMap := Function.update p.pluginMap index (some ⟨index, pluginName⟩) }

def addFile (reallocOk : Nat → Bool) (p : Pools) (file pluginName : Nat) : Option Pools :=
  if p.fileCount ≥ uint32Max then none
  else
    match if p.fileCount ≥ p.capacity then p.resizePools reallocOk else some p with
    | none => none
    | some p => some { p.addFileEntry p.fileCount file pluginName with fileCount := p.fileCount + 1 }

end Pools

namespace Arena

def listHeader (s : Arena) (i : Nat) : PatchListShm := patchListAt s.mem (s.valuesOff + i * 12)

def patchAddr (l : PatchListShm) (k : Nat) : Nat := l.patchesOff + k * 20

def keyOff (s : Arena) (i : Nat) : Nat := s.load (s.keysOff + i * 4)

end Arena

def processPatchList (reallocOk : Nat → Bool) (s : Arena) (list : PatchListShm) (pluginName : Nat) (p : Pools) :
    Option Pools :=
  if list.patchesOff = 0 then some p
  else if list.patchCount > maxPatternCount then none
  else (range list.patchCount).foldlM
    (fun p k => p.addFile reallocOk (patchAt s.mem (patchAddr list k)).fileOff pluginName) p

def strnlen (s : Arena) (off n : Nat) : Nat := (cstrBytes s.mem n off).length

def getFileRegexPool (reallocOk : Nat → Bool) (s : Arena) : Option Pools :=
  if s.count > maxPatternCount then none
  else (range s.count).foldlM (fun p i =>
    if strnlen s (s.keyOff i) (maxPluginNameLen + 1) > maxPluginNameLen then none
    else processPatchList reallocOk s (s.listHeader i) (s.keyOff i) p) Pools.empty

/-- The inner loop of `find_patch_by_id`, from the counter `globalIdx` on; the error is the patch that is returned. -/
def findInList (matchId : Nat) (list : PatchListShm) (globalIdx : Nat) : Except Nat Nat :=
  (range list.patchCount).foldlM (fun globalIdx k =>
    if globalIdx = matchId then .error (patchAddr list k) else .ok (u32 (globalIdx + 1))) globalIdx

def findPatchById (s : Arena) (matchId : Nat) : Option Nat :=
  let outcome := (range s.count).foldlM (fun globalIdx j =>
    if (s.listHeader j).patchesOff = 0 then .ok globalIdx else findInList matchId (s.listHeader j) globalIdx) 0
  match outcome with
  | .error patch => some patch
  | .ok _ => none

structure TransformData where
  count : Int
  mtches : List Nat
  replaces : List Nat
  deriving DecidableEq

def transformData (s : Arena) (patch : PatchShm) : TransformData where
  count := (patch.transformCount : Int).bmod (2 ^ 32)
  mtches := (range patch.transformCount).map fun t => (transformAt s.mem (patch.transformsOff + t * 8)).matchOff
  replaces := (range patch.transformCount).map fun t => (transformAt s.mem (patch.transformsOff + t * 8)).replaceOff

def populateTransform (mallocOk : Bool) (s : Arena) (patch : PatchShm) : Option TransformData :=
  if mallocOk then some (transformData s patch) else none

def getTransformFromMatches (callocOk : Bool) (mallocOk : Nat → Bool) (s : Arena) (ids : List Nat) :
    Option (List (Option Nat × TransformData)) :=
  if callocOk then
    ids.zipIdx.mapM fun (id, i) =>
      match findPatchById s id with
      | none => some (none, ⟨0, [], []⟩)
      | some patch =>
        (populateTransform (mallocOk i) s (patchAt s.mem patch)).map fun t => (some (patchAt s.mem patch).findOff, t)
  else none

/-! ### The patches of an arena -/

namespace Arena

variable (s : Arena)

/-- Entry `x.1` has a patch number `x.2`.  A list that never got an array has none. -/
def Registered (x : Nat × Nat) : Prop :=
  x.1 < s.count ∧ (s.listHeader x.1).patchesOff ≠ 0 ∧ x.2 < (s.listHeader x.1).patchCount

def slotsOf (j : Nat) : List (Nat × Nat) :=
  if (s.listHeader j).patchesOff = 0 then [] else (range (s.listHeader j).patchCount).map fun k => (j, k)

def slots : List (Nat × Nat) := (range s.count).flatMap s.slotsOf

def slotAddr (x : Nat × Nat) : Nat := patchAddr (s.listHeader x.1) x.2

def slotPatch (x : Nat × Nat) : PatchShm := patchAt s.mem (s.slotAddr x)

variable {s}

theorem mem_slotsOf {j x} :
    x ∈ s.slotsOf j ↔ x.1 = j ∧ (s.listHeader j).patchesOff ≠ 0 ∧ x.2 < (s.listHeader j).patchCount := by
  unfold slotsOf
  split
  · rename_i h0
    simp [h0]
  · rename_i h0
    simp only [List.mem_map, List.mem_range, ne_eq, h0, not_false_eq_true, true_and]
    constructor
    · rintro ⟨k, hk, rfl⟩
      exact ⟨rfl, hk⟩
    · rintro ⟨rfl, hk⟩
      exact ⟨x.2, hk, rfl⟩

theorem mem_slots {x} : x ∈ s.slots ↔ s.Registered x := by
  unfold slots Registered
  simp only [mem_flatMap, mem_range, mem_slotsOf]
  constructor
  · rintro ⟨j, hj, rfl, h⟩
    exact ⟨hj, h⟩
  · rintro ⟨hj, h⟩
    exact ⟨x.1, hj, rfl, h⟩

theorem nodup_slots (s : Arena) : s.slots.Nodup := by
  refine nodup_flatMap.2 ⟨fun j _ => ?_, ?_⟩
  · unfold slotsOf
    split
    · exact nodup_nil
    · exact nodup_range.map fun k k' h => (Prod.mk.inj h).2
  · refine nodup_range.imp fun {j j'} hne => ?_
    intro x hx hx'
    exact hne ((mem_slotsOf.1 hx).1.symm.trans (mem_slotsOf.1 hx').1)

end Arena

/-! ### What is in the pool -/

namespace Pools

/-- The first slots of the arrays hold the given files and names; there is room for no more than the limit. -/
structure Filled (p : Pools) (files : List (Nat × Nat)) : Prop where
  count : p.fileCount = files.length
  le : p.fileCount ≤ p.capacity
  max : p.capacity ≤ maxPoolCapacity
  slot : ∀ (i : Nat) file name, files[i]? = some (file, name) → p.filePool i = some file ∧ p.pluginMap i = some ⟨i, name⟩

variable {p p' : Pools} {files : List (Nat × Nat)} {reallocOk : Nat → Bool}

theorem filled_empty : empty.Filled [] := ⟨rfl, Nat.le_refl _, Nat.zero_le _, fun i file name h => by simp at h⟩

theorem newPoolCapacity_spec {capacity c} (e : newPoolCapacity capacity = some c) :
    capacity < c ∧ c ≤ maxPoolCapacity := by
  unfold newPoolCapacity safeMulU32 uint32Max maxPoolCapacity at *
  split at e
  · injection e with e
    omega
  · split at e
    · simp at e
    · split at e
      · simp at e
      · injection e with e
        omega

theorem Filled.resize (h : p.Filled files) (e : p.resizePools reallocOk = some p') :
    p'.Filled files ∧ p.capacity < p'.capacity ∧ p'.fileCount = p.fileCount := by
  unfold resizePools at e
  split at e
  · simp at e
  · rename_i c hnew
    obtain ⟨hc, hmax⟩ := newPoolCapacity_spec hnew
    simp only [if_neg (Nat.not_lt.2 hmax)] at e
    split at e
    · cases e
      refine ⟨⟨h.count, Nat.le_trans h.le (Nat.le_of_lt hc), hmax, fun i file name hi => ?_⟩, hc, rfl⟩
      have hlt : i < min p.capacity c := by
        have hi' := (List.getElem?_eq_some_iff.1 hi).1
        have := h.le
        rw [h.count] at this
        omega
      simp only [realloc, hlt, ↓reduceIte]
      exact h.slot i file name hi
    · simp at e

theorem Filled.addFile (h : p.Filled files) {file pluginName} (e : p.addFile reallocOk file pluginName = some p') :
    p'.Filled (files ++ [(file, pluginName)]) := by
  unfold Pools.addFile at e
  split at e
  · simp at e
  · split at e
    · simp at e
    · rename_i q hq
      obtain ⟨hfill, hlt⟩ : q.Filled files ∧ q.fileCount < q.capacity := by
        have hle := h.le
        split at hq
        · obtain ⟨hfill, hcap, hcnt⟩ := h.resize hq
          exact ⟨hfill, by omega⟩
        · obtain rfl : p = q := Option.some.inj hq
          exact ⟨h, by omega⟩
      cases e
      refine ⟨?_, hlt, hfill.max, fun i file' name hi => ?_⟩
      · simp only [hfill.count, length_append, length_singleton]
      · simp only [addFileEntry, hfill.count]
        by_cases hlast : i = files.length
        · subst hlast
          obtain ⟨rfl, rfl⟩ : file = file' ∧ pluginName = name := by simpa using hi
          simp only [Function.update_self, and_self]
        · have hi' := (List.getElem?_eq_some_iff.1 hi).1
          rw [length_append, length_singleton] at hi'
          rw [getElem?_append_left (by omega)] at hi
          rw [Function.update_of_ne hlast, Function.update_of_ne hlast]
          exact hfill.slot i file' name hi

end Pools

section Traversals

variable {s : Arena} {reallocOk : Nat → Bool} {p p' : Pools} {files : List (Nat × Nat)}

def slotFile (s : Arena) (x : Nat × Nat) : Nat × Nat := ((s.slotPatch x).fileOff, s.keyOff x.1)

theorem processPatchList_filled {j} (h : p.Filled files)
    (e : processPatchList reallocOk s (s.listHeader j) (s.keyOff j) p = some p') :
    p'.Filled (files ++ (s.slotsOf j).map (slotFile s)) := by
  unfold processPatchList at e
  split at e
  · rename_i h0
    cases e
    simpa [slotsOf, h0] using h
  · rename_i h0
    split at e
    · simp at e
    · have hmap : (s.slotsOf j).map (slotFile s) =
          (range (s.listHeader j).patchCount).flatMap fun k => [slotFile s (j, k)] := by
        rw [slotsOf, if_neg h0, List.map_map, List.map_eq_flatMap]
        rfl
      rw [hmap]
      exact foldlM_collect (fun _ _ _ k _ hq hk => hq.addFile hk) h e

theorem getFileRegexPool_filled (e : getFileRegexPool reallocOk s = some p) : p.Filled (s.slots.map (slotFile s)) := by
  unfold getFileRegexPool at e
  split at e
  · simp at e
  · have hmap : s.slots.map (slotFile s) = (range s.count).flatMap fun j => (s.slotsOf j).map (slotFile s) := by
      rw [slots, map_flatMap]
    rw [hmap]
    refine foldlM_collect (fun q q' cs j _ hq hj => ?_) Pools.filled_empty e
    split at hj
    · simp at hj
    · exact processPatchList_filled hq hj

theorem findInList_eq (matchId : Nat) (list : PatchListShm) {i} (hi : i ≤ matchId)
    (hbnd : i + list.patchCount ≤ uint32Max) :
    findInList matchId list i = search ((range list.patchCount).map (patchAddr list)) matchId i := by
  rw [map_eq_flatMap]
  refine foldlM_search uint32Max (fun i k _ hi hle => ?_) hi (by simpa [length_flatMap] using hbnd)
  unfold search
  by_cases hid : i = matchId
  · simp [hid]
  · obtain ⟨d, hd⟩ : ∃ d, matchId - i = d + 1 := ⟨matchId - i - 1, by omega⟩
    have hlt : i + 1 < 2 ^ 32 := by
      simp only [length_singleton, uint32Max] at hle
      omega
    simp [hid, hd, u32_of_lt hlt]

theorem findPatchById_eq (hbnd : s.slots.length ≤ uint32Max) (matchId : Nat) :
    findPatchById s matchId = (s.slots.map s.slotAddr)[matchId]? := by
  have hmap : s.slots.map s.slotAddr = (range s.count).flatMap fun j => (s.slotsOf j).map s.slotAddr := by
    rw [slots, map_flatMap]
  have hsrc : (range s.count).foldlM (fun globalIdx j => if (s.listHeader j).patchesOff = 0 then .ok globalIdx
      else findInList matchId (s.listHeader j) globalIdx) 0 = search (s.slots.map s.slotAddr) matchId 0 := by
    rw [hmap]
    refine foldlM_search uint32Max (fun i j _ hi hle => ?_) (Nat.zero_le _) ?_
    · unfold slotsOf at hle ⊢
      split
      · rfl
      · rename_i h0
        rw [if_neg h0, length_map, length_map, length_range] at hle
        rw [findInList_eq matchId _ hi hle, List.map_map]
        rfl
    · rw [← hmap, length_map, Nat.zero_add]
      exact hbnd
  unfold findPatchById
  simp only [hsrc, search, Nat.sub_zero]
  cases (s.slots.map s.slotAddr)[matchId]? with
  | none => rfl
  | some a => rfl

theorem getTransformFromMatches_getElem? {callocOk} {mallocOk : Nat → Bool} {ids}
    {out} (e : getTransformFromMatches callocOk mallocOk s ids = some out) {n id : Nat}
    (hid : ids[n]? = some id) {patch : Nat} (hpat : findPatchById s id = some patch) :
    out[n]? = some (some (patchAt s.mem patch).findOff, transformData s (patchAt s.mem patch)) := by
  unfold getTransformFromMatches at e
  split at e
  · have hzip : ids.zipIdx[n]? = some (id, n) := by simp [getElem?_zipIdx, hid]
    obtain ⟨y, hy, hn⟩ := mapM_getElem? e hzip
    simp only [hpat, populateTransform] at hy
    split at hy
    · rw [hn, ← hy]
      rfl
    · simp at hy
  · simp at e

end Traversals

/-- If the pool could be built, its indices number the patches of the arena: index `i` of the pool has the file pattern of
the patch that `find_patch_by_id` finds for `i` and the name of the plugin it belongs to, every patch has exactly one
index, no patch is found for other numbers, and `get_transform_from_matches` returns for an index the find pattern and the
transforms of that patch. -/
theorem pool_numbering {s : Arena} {reallocOk : Nat → Bool} {p : Pools} (e : getFileRegexPool reallocOk s = some p) :
    ∃ σ : Fin p.fileCount ≃ { x // s.Registered x },
      (∀ i : Fin p.fileCount, findPatchById s i = some (s.slotAddr (σ i)) ∧
        p.filePool i = some (s.slotPatch (σ i)).fileOff ∧ p.pluginMap i = some ⟨i, s.keyOff (σ i).1.1⟩) ∧
      (∀ id, p.fileCount ≤ id → findPatchById s id = none) ∧
      ∀ callocOk mallocOk ids out, getTransformFromMatches callocOk mallocOk s ids = some out →
        ∀ (n : Nat) (i : Fin p.fileCount), ids[n]? = some i.1 →
          out[n]? = some (some (s.slotPatch (σ i)).findOff, transformData s (s.slotPatch (σ i))) := by
  have hfill := getFileRegexPool_filled e
  have hcnt : p.fileCount = s.slots.length := by rw [hfill.count, length_map]
  have hbnd : s.slots.length ≤ uint32Max := by
    have hle := hfill.le
    have hmax := hfill.max
    unfold maxPoolCapacity at hmax
    unfold uint32Max
    omega
  let σ : Fin p.fileCount ≃ { x // s.Registered x } :=
    (finCongr hcnt).trans ((s.nodup_slots.getEquiv).trans (Equiv.subtypeEquivRight fun x => mem_slots))
  have hslot : ∀ i : Fin p.fileCount, s.slots[i.1]? = some (σ i).1 := fun i =>
    getElem?_eq_getElem (Nat.lt_of_lt_of_eq i.2 hcnt)
  have hfind : ∀ i : Fin p.fileCount, findPatchById s i = some (s.slotAddr (σ i)) := by
    intro i
    rw [findPatchById_eq hbnd, getElem?_map, hslot]
    rfl
  refine ⟨σ, fun i => ⟨hfind i, ?_⟩, fun id hid => ?_, fun callocOk mallocOk ids out eout n i hn => ?_⟩
  · refine hfill.slot i _ _ ?_
    rw [getElem?_map, hslot]
    rfl
  · rw [findPatchById_eq hbnd, getElem?_eq_none]
    rw [length_map]
    omega
  · exact getTransformFromMatches_getElem? eout hn (hfind i)

def emptyBetween : List Call :=
  [.hashmapAddKey (.ofBytes [112]), .patchlistAdd 0 (.ofBytes [97]) (.ofBytes [98]), .hashmapAddKey (.ofBytes [113]),
    .hashmapAddKey (.ofBytes [114]), .patchlistAdd 2 (.ofBytes [99]) (.ofBytes [100]),
    .patchAddTransform 1 (.ofBytes [101]) (.ofBytes [102])]

theorem pool_numbering_emptyBetween :
    ∃ p, getFileRegexPool (fun _ => true) ((Client.start fun _ => 0).run emptyBetween).arena = some p ∧ p.fileCount = 2 ∧
      ∀ id, p.fileCount ≤ id → findPatchById ((Client.start fun _ => 0).run emptyBetween).arena id = none := by
  obtain ⟨p, hp⟩ := isSome_iff_exists.1 (by decide +kernel :
    (getFileRegexPool (fun _ => true) ((Client.start fun _ => 0).run emptyBetween).arena).isSome = true)
  have hcnt : (getFileRegexPool (fun _ => true) ((Client.start fun _ => 0).run emptyBetween).arena).map
      Pools.fileCount = some 2 := by decide +kernel
  rw [hp] at hcnt
  obtain ⟨σ, -, hnone, -⟩ := pool_numbering hp
  exact ⟨p, hp, Option.some.inj hcnt, hnone⟩

/-! ### On an arena that holds a map -/

def Arena.registered (s : Arena) : List (CString × Patch) :=
  s.slots.map fun x => (s.cstrAt (s.keyOff x.1), s.readPatch (s.slotPatch x))

theorem registered_eq {s : Arena} {st : Store} {dead : List PatchListShm} {m : PatchMap} (h : s.Holds st dead m) :
    s.registered = m.entries.flatMap fun e => e.2.map fun p => (e.1, p) := by
  have hmap : s.readMap = m.entries := (h.lay.readMap_eq h.store.ok).trans h.store.map
  rw [← hmap, readMap, flatMap_map, registered, slots, map_flatMap]
  refine flatMap_congr fun i hi => ?_
  have hi : i < st.count := by
    rw [← h.lay.count]
    exact mem_range.1 hi
  have hic : i < st.capacity := Nat.lt_of_lt_of_le hi h.store.ok.count_le
  have hlist : s.listHeader i = st.listAt st.valuesOff i := by
    rw [listHeader, h.lay.valuesOff]
    exact h.lay.listAt_eq h.store.ok.values hic
  show (s.slotsOf i).map _ = List.map (fun p => (s.cstrAt (s.keyOff i), p))
    ((List.range (s.listHeader i).patchCount).map fun j => s.readPatch (s.slotPatch (i, j)))
  rw [List.map_map, slotsOf]
  split
  · rename_i h0
    have hcnt : (s.listHeader i).patchCount = 0 := by
      rw [hlist] at h0 ⊢
      rcases h.store.ok.lists h.store.ok.values hic with ⟨-, hcnt, -⟩ | ⟨hblk, -⟩
      · exact hcnt
      · rw [h0, h.store.ok.blocks.zero] at hblk
        simp at hblk
    rw [hcnt]
    rfl
  · rw [List.map_map]
    rfl

end CloudeLoader
