import CloudeLoader.Arena.Holds

/-!
# What a list costs

The allocator never takes anything back, so how long an arena lasts is a matter of addition.
-/

namespace CloudeLoader

open ByteMemory

/-- The bytes that adding these transforms takes, with the arrays that grow on the way. -/
def transformsSize (count capacity : Nat) : List (CString × CString) → Nat
  | [] => 0
  | (mtch, replace) :: ts =>
    arrayGrowth .transforms count capacity + (strSize mtch + strSize replace) +
      transformsSize (count + 1) (grownCapacity count capacity) ts

def patchesSize (count capacity : Nat) : List Patch → Nat
  | [] => 0
  | p :: ps =>
    arrayGrowth .patches count capacity + (strSize p.file + strSize p.find) + transformsSize 0 0 p.transforms +
      patchesSize (count + 1) (grownCapacity count capacity) ps

namespace Store

/-- The bytes that adding a key takes. -/
def keySize (st : Store) (key : CString) : Nat :=
  match st.index key with
  | none => mapGrowth st.count st.capacity + strSize key
  | some _ => 0

variable {st st' : Store} {b i j c : Nat} {dead : List PatchListShm} {m : PatchMap} {k : CString} {l : PatchListShm}

theorem Holds.keySize_eq (h : st.Holds dead m) (he : st.entries[i]? = some (k, l)) : st.keySize k = 0 := by
  simp only [keySize, h.index_eq_some he]

theorem Ok.addKey_keySize (h : st.Ok) (hle : st.used ≤ shmIpcSize) (key : CString) :
    st.Spends (st.addKey key).1 (st.keySize key) := by
  unfold Store.keySize
  split
  · rename_i hidx
    exact h.addKey_spends hidx
  · rename_i i hidx
    rw [addKey_of_index hidx]
    exact ⟨Nat.le_refl _, fun _ => ⟨rfl, rfl⟩, fun hlt => by omega⟩

/-! ### Counts and capacities -/

theorem Ok.addElem_sizes {k : Kind} {w : Nat} (h : st.Ok) (hh : st.Head k b w) (s s' : CString)
    (hr : (st.addElem k b w s s').1.refusals = st.refusals) :
    (st.addElem k b w s s').1.word b (w + 1) = st.word b (w + 1) + 1 ∧
      (st.addElem k b w s s').1.word b (w + 2) = grownCapacity (st.word b (w + 1)) (st.word b (w + 2)) := by
  rcases addElem_cases h hh s s' with ⟨-, -, e⟩ | ⟨st1, hroom, e⟩
  · rw [e] at hr
    simp [Store.refuse] at hr
  · obtain ⟨_, _, hs⟩ := hroom.append h hh s s'
    have hne := (hh.mono (hroom.le h)).ne_off (hroom.ok h hh) (hroom.lt h hh)
    obtain ⟨hcnt, hcap⟩ := hroom.sizes (hh.ne_used h)
    simp only [e, hs.word, word_setWord, word_setElem_ne _ hne]
    exact ⟨by simp [hcnt], by simp [hcap]⟩

theorem Ok.addPatch_sizes (h : st.Ok) (hb : st.blk b = some (.values, c)) (hi : i < c) (file find : CString)
    (hr : (st.addPatch b i file find).1.refusals = st.refusals) :
    let l := (st.addPatch b i file find).1.listAt b i
    let p := (st.addPatch b i file find).1.patchAt l.patchesOff (st.listAt b i).patchCount
    l.patchCapacity = grownCapacity (st.listAt b i).patchCount (st.listAt b i).patchCapacity ∧
      p.transformCount = 0 ∧ p.transformCapacity = 0 := by
  have hh : st.Head .patches b (3 * i) := .list hb hi
  have hsiz := h.addElem_sizes hh file find
  rw [← addPatch_fst] at hsiz
  refine ⟨(hsiz hr).2, ?_⟩
  rcases addPatch_cases h hh file find with ⟨-, -, e⟩ | ⟨st1, hroom, e⟩
  · rw [e] at hr
    simp [Store.refuse] at hr
  · obtain ⟨_, _, hs⟩ := hroom.append h hh file find
    have hne := (hh.mono (hroom.le h)).ne_off (hroom.ok h hh) (hroom.lt h hh)
    have hoff := hs.word_off hne
    rw [e]
    simp only [listAt] at hoff ⊢
    rw [hoff, hs.patchAt_added hne.symm, if_pos ⟨rfl, (hroom.sizes (hh.ne_used h)).1.symm⟩]
    exact ⟨rfl, rfl⟩

theorem Ok.addTransform_sizes (h : st.Ok) (hb : st.blk b = some (.patches, c)) (hj : j < st.init b)
    (mtch replace : CString) (hr : (st.addTransform b j mtch replace).refusals = st.refusals) :
    let p := (st.addTransform b j mtch replace).patchAt b j
    p.transformCount = (st.patchAt b j).transformCount + 1 ∧
      p.transformCapacity = grownCapacity (st.patchAt b j).transformCount (st.patchAt b j).transformCapacity :=
  h.addElem_sizes (.patch hb hj) mtch replace hr

end Store

end CloudeLoader
