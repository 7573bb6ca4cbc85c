import CloudeLoader.Arena.SharedMemory

/-!
# The arena as a store of blocks

The same operations as in `CloudeLoader.Arena.SharedMemory`, on a store in which every block is an object of its own: a
word is addressed by its block and its index, so that writing one block cannot touch another, and a string is a value.
-/

namespace CloudeLoader

open ByteMemory

structure Store where
  used : Nat
  keysOff : Nat
  valuesOff : Nat
  count : Nat
  capacity : Nat
  blk : Nat → Option (Kind × Nat)
  word : Nat → Nat → Nat
  str : Nat → CString
  init : Nat → Nat
  refusals : Nat

def align8 (n : Nat) : Nat := (n + 7) / 8 * 8

theorem align8_ge (n : Nat) : n ≤ align8 n := by unfold align8; omega

theorem align8_mod (n : Nat) : align8 n % 8 = 0 := by unfold align8; omega

theorem align8_pos {n} (h : 0 < n) : 0 < align8 n := by unfold align8; omega

/-- The words of an element. -/
def Kind.words (k : Kind) : Nat := k.stride / 4

theorem words_values : Kind.words .values = 3 := rfl

theorem words_patches : Kind.words .patches = 5 := rfl

theorem words_transforms : Kind.words .transforms = 2 := rfl

/-- The two kinds of arrays that are moved when they are full. -/
abbrev Kind.IsArray (k : Kind) : Prop := k = .patches ∨ k = .transforms

theorem Kind.IsArray.two_le {k : Kind} (h : k.IsArray) : 2 ≤ k.words := by
  rcases h with rfl | rfl <;> decide

theorem stride_pos (k : Kind) : 0 < k.stride := by cases k <;> decide

def strSize (s : CString) : Nat := align8 (s.length + 1)

def nextCapacity (capacity : Nat) : Nat := if capacity ≠ 0 then capacity * 2 else 4

theorem nextCapacity_gt (c : Nat) : c < nextCapacity c := by
  unfold nextCapacity
  split <;> omega

def arraySize (k : Kind) (capacity : Nat) : Nat := align8 (k.stride * nextCapacity capacity)

def arrayGrowth (k : Kind) (count capacity : Nat) : Nat := if count < capacity then 0 else arraySize k capacity

def grownCapacity (count capacity : Nat) : Nat := if count < capacity then capacity else nextCapacity capacity

def mapSize (capacity : Nat) : Nat := align8 (Kind.keys.stride * (capacity * 2)) + align8 (Kind.values.stride * (capacity * 2))

def mapGrowth (count capacity : Nat) : Nat := if count < capacity then 0 else mapSize capacity

namespace Store

variable (st : Store)

def setWord (b w v : Nat) : Store :=
  { st with word := fun b' w' => if b' = b ∧ w' = w then v else st.word b' w' }

def copyWords (dst w src w' n : Nat) : Store :=
  { st with word := fun b i => if b = dst ∧ w ≤ i ∧ i < w + n then st.word src (w' + (i - w)) else st.word b i }

def zeroWords (dst w n : Nat) : Store :=
  { st with word := fun b i => if b = dst ∧ w ≤ i ∧ i < w + n then 0 else st.word b i }

def markInit (b n : Nat) : Store :=
  { st with init := Function.update st.init b (max (st.init b) n) }

def withBlock (k : Kind) (c : Nat) : Store :=
  { st with used := st.used + align8 (k.stride * c), blk := Function.update st.blk st.used (some (k, c)) }

def refuse : Store := { st with refusals := st.refusals + 1 }

def alloc (k : Kind) (c : Nat) : Store × Nat :=
  if st.used + align8 (k.stride * c) > shmIpcSize then (st.refuse, 0) else (st.withBlock k c, st.used)

def strdup (s : CString) : Store × Nat :=
  let (st, off) := st.alloc .str (s.length + 1)
  if off = 0 then (st, 0) else ({ st with str := Function.update st.str off s }, off)

def withStr (s : CString) : Store :=
  { st.withBlock .str (s.length + 1) with str := Function.update st.str st.used s }

/-! ### Structures in the words -/

def listAt (b i : Nat) : PatchListShm := ⟨st.word b (3 * i), st.word b (3 * i + 1), st.word b (3 * i + 2)⟩

def patchAt (b j : Nat) : PatchShm :=
  ⟨st.word b (5 * j), st.word b (5 * j + 1), st.word b (5 * j + 2), st.word b (5 * j + 3), st.word b (5 * j + 4)⟩

def transformAt (b t : Nat) : TransformShm := ⟨st.word b (2 * t), st.word b (2 * t + 1)⟩

/-- An empty array: its offset, count and capacity from the word `w` on. -/
def clearHead (b w : Nat) : Store := ((st.setWord b w 0).setWord b (w + 1) 0).setWord b (w + 2) 0

/-- An element of an array: the offsets of its two strings, and zeros. -/
def setElem (k : Kind) (b n off off' : Nat) : Store :=
  { st with word := fun b' w =>
      if b' = b ∧ k.words * n ≤ w ∧ w < k.words * n + k.words then
        if w = k.words * n then off else if w = k.words * n + 1 then off' else 0
      else st.word b' w }

/-! ### The operations -/

def index (key : CString) : Option Nat :=
  (List.range st.count).find? fun i => st.str (st.word st.keysOff i) = key

def initMap : Store :=
  let newKeysOff := st.used
  let newValuesOff := st.used + align8 (Kind.keys.stride * 16)
  let st := ({ st with count := 0, capacity := 16 }.withBlock .keys 16).withBlock .values 16
  { st with
    keysOff := newKeysOff
    valuesOff := newValuesOff
    word := ((st.zeroWords newKeysOff 0 16).zeroWords newValuesOff 0 48).word }

def moveMap (newKeysOff newValuesOff newCapacity : Nat) : Store :=
  { st with
    keysOff := newKeysOff
    valuesOff := newValuesOff
    capacity := newCapacity
    word :=
      ((((st.copyWords newKeysOff 0 st.keysOff 0 st.capacity).copyWords newValuesOff 0 st.valuesOff 0
        (3 * st.capacity)).zeroWords newKeysOff st.capacity st.capacity).zeroWords newValuesOff (3 * st.capacity)
        (3 * st.capacity)).word }

def grow : Store × Bool :=
  let newCapacity := st.capacity * 2
  let (st, newKeysOff) := st.alloc .keys newCapacity
  let (st, newValuesOff) := st.alloc .values newCapacity
  if newKeysOff = 0 ∨ newValuesOff = 0 then (st, false) else (st.moveMap newKeysOff newValuesOff newCapacity, true)

def append (key : CString) : Store × Nat :=
  let (st, off) := st.strdup key
  let st := st.setWord st.keysOff st.count off
  let st := st.clearHead st.valuesOff (3 * st.count)
  ({ st with count := st.count + 1 }, st.count)

def addKey (key : CString) : Store × Option Nat :=
  match st.index key with
  | some i => (st, some i)
  | none =>
    match if st.count ≥ st.capacity then st.grow else (st, true) with
    | (st, false) => (st, none)
    | (st, true) =>
      let (st, i) := st.append key
      (st, some i)

def remove (key : CString) : Store :=
  match st.index key with
  | none => st
  | some i =>
    let st :=
      if i < st.count - 1 then
        let n := st.count - i - 1
        let st := st.copyWords st.keysOff i st.keysOff (i + 1) n
        st.copyWords st.valuesOff (3 * i) st.valuesOff (3 * (i + 1)) (3 * n)
      else st
    { st with count := st.count - 1 }

/-- The array whose offset, count and capacity are the words of the block `b` from `w` on. -/
def growArray (k : Kind) (b w : Nat) : Store × Bool :=
  let off := st.word b w
  let capacity := st.word b (w + 2)
  let (st, newOff) := st.alloc k (nextCapacity capacity)
  if newOff = 0 then (st, false)
  else
    let st := if off ≠ 0 then st.copyWords newOff 0 off 0 (k.words * capacity) else st
    let st := (st.setWord b w newOff).setWord b (w + 2) (nextCapacity capacity)
    (st.markInit newOff capacity, true)

def arrayRoom (k : Kind) (b w : Nat) : Store × Bool :=
  if st.word b (w + 1) ≥ st.word b (w + 2) then st.growArray k b w else (st, true)

def appendElem (k : Kind) (b w : Nat) (s s' : CString) : Store :=
  let off := st.word b w
  let count := st.word b (w + 1)
  let st := st.setWord b (w + 1) (count + 1)
  let (st, o) := st.strdup s
  let (st, o') := st.strdup s'
  (st.setElem k off count o o').markInit off (count + 1)

def addElem (k : Kind) (b w : Nat) (s s' : CString) : Store × Bool :=
  match st.arrayRoom k b w with
  | (st, false) => (st, false)
  | (st, true) => (st.appendElem k b w s s', true)

def addTransform (b j : Nat) (mtch replace : CString) : Store :=
  (st.addElem .transforms b (5 * j + 2) mtch replace).1

def addPatch (b i : Nat) (file find : CString) : Store × Option (Nat × Nat) :=
  match st.addElem .patches b (3 * i) file find with
  | (st', false) => (st', none)
  | (st', true) => (st', some ((st'.listAt b i).patchesOff, (st.listAt b i).patchCount))

/-! ### Reading back what was set -/

variable {b b' dst src i i' j j' t n o o' v w w' : Nat} {k : Kind}

theorem word_setWord : (st.setWord b w v).word b' w' = if b' = b ∧ w' = w then v else st.word b' w' := rfl

theorem word_clearHead :
    (st.clearHead b w).word b' w' = if b' = b ∧ w ≤ w' ∧ w' < w + 3 then 0 else st.word b' w' := by
  simp only [clearHead, word_setWord]
  grind

theorem listAt_clearHead :
    (st.clearHead b (3 * i)).listAt b' i' = if b' = b ∧ i' = i then ⟨0, 0, 0⟩ else st.listAt b' i' := by
  simp only [listAt, word_clearHead]
  grind

theorem word_setElem_ne (h : b' ≠ b) : (st.setElem k b n o o').word b' w = st.word b' w := by
  simp [setElem, h]

theorem word_setElem {x} (hk : k.IsArray) (hx : x < k.words) :
    (st.setElem k b n o o').word b' (k.words * j + x) =
      if b' = b ∧ j = n then if x = 0 then o else if x = 1 then o' else 0 else st.word b' (k.words * j + x) := by
  by_cases h : b' = b ∧ j = n
  · obtain ⟨rfl, rfl⟩ := h
    simp [setElem, hx]
  · rw [if_neg h]
    refine if_neg ?_
    rcases hk with rfl | rfl
    · rw [words_patches] at *
      omega
    · rw [words_transforms] at *
      omega

theorem setElem_transforms :
    st.setElem .transforms b n o o' = (st.setWord b (2 * n) o).setWord b (2 * n + 1) o' := by
  simp only [setElem, setWord, words_transforms]
  congr 1
  funext b' w
  grind

theorem setElem_patches : st.setElem .patches b n o o' =
    ((((st.setWord b (5 * n) o).setWord b (5 * n + 1) o').setWord b (5 * n + 2) 0).setWord b (5 * n + 3) 0).setWord b
      (5 * n + 4) 0 := by
  simp only [setElem, setWord, words_patches]
  congr 1
  funext b' w
  by_cases hb : b' = b
  · simp only [hb, true_and]
    grind
  · simp only [hb, false_and, if_false]

theorem patchAt_setElem :
    (st.setElem .patches b n o o').patchAt b' j = if b' = b ∧ j = n then ⟨o, o', 0, 0, 0⟩ else st.patchAt b' j := by
  by_cases h : b' = b ∧ j = n
  · obtain ⟨rfl, rfl⟩ := h
    simp [patchAt, setElem, words_patches]
  · rw [if_neg h]
    simp only [patchAt, setElem, words_patches]
    congr 1 <;> exact if_neg (by omega)

theorem transformAt_setElem :
    (st.setElem .transforms b n o o').transformAt b' t = if b' = b ∧ t = n then ⟨o, o'⟩ else st.transformAt b' t := by
  by_cases h : b' = b ∧ t = n
  · obtain ⟨rfl, rfl⟩ := h
    simp [transformAt, setElem, words_transforms]
  · rw [if_neg h]
    simp only [transformAt, setElem, words_transforms]
    congr 1 <;> exact if_neg (by omega)

/-! ### Copies of whole arrays -/

theorem word_shift : (st.copyWords dst i dst (i + 1) n).word dst i' =
    if i ≤ i' ∧ i' < i + n then st.word dst (i' + 1) else st.word dst i' := by
  grind [copyWords]

theorem listAt_shift :
    (st.copyWords dst (3 * i) dst (3 * (i + 1)) (3 * n)).listAt b i' =
      if b = dst ∧ i ≤ i' ∧ i' < i + n then st.listAt b (i' + 1) else st.listAt b i' := by
  grind [listAt, copyWords]

theorem word_copyWords_ne (h : b ≠ dst) : (st.copyWords dst w src w' n).word b i = st.word b i := by
  simp [copyWords, h]

theorem word_moveMap {nk nv c} (hne : nk ≠ nv) (hnk : nk ≠ st.valuesOff) :
    (st.moveMap nk nv c).word b w =
      if b = nk ∧ w < st.capacity then st.word st.keysOff w
      else if b = nk ∧ w < 2 * st.capacity then 0
      else if b = nv ∧ w < 3 * st.capacity then st.word st.valuesOff w
      else if b = nv ∧ w < 6 * st.capacity then 0
      else st.word b w := by
  simp only [moveMap, copyWords, zeroWords, Nat.zero_le, true_and, Nat.zero_add, Nat.sub_zero]
  grind

theorem listAt_moveMap {nk nv c} (hne : nk ≠ nv) (hnk : nk ≠ st.valuesOff) (hi : i < 2 * st.capacity) :
    (st.moveMap nk nv c).listAt nv i = if i < st.capacity then st.listAt st.valuesOff i else ⟨0, 0, 0⟩ := by
  simp only [listAt, word_moveMap st hne hnk]
  grind

/-! ### Allocation -/

theorem alloc_cases (k : Kind) (c : Nat) :
    (shmIpcSize < st.used + align8 (k.stride * c) ∧ st.alloc k c = (st.refuse, 0)) ∨
    (st.used + align8 (k.stride * c) ≤ shmIpcSize ∧ st.alloc k c = (st.withBlock k c, st.used)) := by
  unfold alloc
  split
  · exact .inl ⟨by omega, rfl⟩
  · exact .inr ⟨by omega, rfl⟩

/-- What a computation needs: with `n` bytes left it takes them and all its requests fit; with less, one does not. -/
structure Spends (st st' : Store) (n : Nat) : Prop where
  mono : st.refusals ≤ st'.refusals
  fits : st.used + n ≤ shmIpcSize → st'.used = st.used + n ∧ st'.refusals = st.refusals
  full : shmIpcSize < st.used + n → st.refusals < st'.refusals

variable {st} in
theorem Spends.trans {st' st'' : Store} {n n' : Nat} (h : st.Spends st' n) (h' : st'.Spends st'' n') :
    st.Spends st'' (n + n') := by
  have hm' := h'.mono
  by_cases hn : st.used + n ≤ shmIpcSize
  · obtain ⟨hu, hr⟩ := h.fits hn
    refine ⟨by omega, fun hle => ?_, fun hlt => ?_⟩
    · obtain ⟨hu', hr'⟩ := h'.fits (by omega)
      omega
    · have := h'.full (by omega)
      omega
  · have := h.full (by omega)
    exact ⟨by omega, fun hle => by omega, fun _ => by omega⟩

variable {st} in
theorem Spends.refusals_eq_iff {st' : Store} {n : Nat} (h : st.Spends st' n) :
    st'.refusals = st.refusals ↔ st.used + n ≤ shmIpcSize := by
  constructor
  · intro he
    by_contra hlt
    have := h.full (by omega)
    omega
  · exact fun hle => (h.fits hle).2

variable {st} in
theorem Spends.used_eq {st' : Store} {n : Nat} (h : st.Spends st' n) (hr : st'.refusals = st.refusals) :
    st'.used = st.used + n := (h.fits (h.refusals_eq_iff.1 hr)).1

variable {st} in
theorem Spends.congr {st' st'' : Store} {n : Nat} (h : st.Spends st' n) (hu : st''.used = st'.used)
    (hr : st''.refusals = st'.refusals) : st.Spends st'' n := by
  refine ⟨?_, ?_, ?_⟩
  · rw [hr]
    exact h.mono
  · rw [hu, hr]
    exact h.fits
  · rw [hr]
    exact h.full

variable {st} in
theorem spends_of_refused {st' : Store} {n : Nat} (hlt : shmIpcSize < st.used + n) (hr : st.refusals < st'.refusals) :
    st.Spends st' n :=
  ⟨Nat.le_of_lt hr, fun hle => by omega, fun _ => hr⟩

variable {st} in
theorem spends_withBlock {k : Kind} {c : Nat} (h : st.used + align8 (k.stride * c) ≤ shmIpcSize) :
    st.Spends (st.withBlock k c) (align8 (k.stride * c)) :=
  ⟨Nat.le_refl _, fun _ => ⟨rfl, rfl⟩, fun hlt => by omega⟩

variable {st} in
theorem Spends.growth {st' st'' : Store} {count capacity size n : Nat}
    (hroom : count < capacity ∧ st' = st ∨ capacity ≤ count ∧ st.Spends st' size) (h : st'.Spends st'' n) :
    st.Spends st'' ((if count < capacity then 0 else size) + n) := by
  rcases hroom with ⟨hlt, rfl⟩ | ⟨hfull, hs⟩
  · rw [if_pos hlt, Nat.zero_add]
    exact h
  · rw [if_neg (Nat.not_lt.2 hfull)]
    exact hs.trans h

theorem used_growth_le {used count capacity size : Nat} (hle : used ≤ shmIpcSize)
    (hsize : capacity ≤ count → used + size ≤ shmIpcSize) : used + (if count < capacity then 0 else size) ≤ shmIpcSize := by
  split
  · exact hle
  · exact hsize (by omega)

theorem alloc_of_ne_zero {st' k c off} (h : st.alloc k c = (st', off)) (h0 : off ≠ 0) :
    st' = st.withBlock k c ∧ off = st.used := by
  rcases st.alloc_cases k c with ⟨-, e⟩ | ⟨-, e⟩
  · rw [e] at h
    injection h with _ h2
    exact absurd h2.symm h0
  · rw [e] at h
    injection h with h1 h2
    exact ⟨h1.symm, h2.symm⟩

theorem strdup_cases (h0 : 0 < st.used) (s : CString) :
    (shmIpcSize < st.used + strSize s ∧ st.strdup s = (st.refuse, 0)) ∨
    (st.used + strSize s ≤ shmIpcSize ∧ st.strdup s = (st.withStr s, st.used)) := by
  have hst : Kind.stride .str * (s.length + 1) = s.length + 1 := by simp [Kind.stride]
  rcases st.alloc_cases .str (s.length + 1) with ⟨h, e⟩ | ⟨h, e⟩
  · rw [hst] at h
    exact .inl ⟨h, by simp [strdup, e]⟩
  · rw [hst] at h
    refine .inr ⟨h, ?_⟩
    simp only [strdup, e, Nat.ne_of_gt h0, ↓reduceIte]
    rfl

theorem used_withStr (s : CString) : (st.withStr s).used = st.used + strSize s := by
  simp [withStr, withBlock, strSize, Kind.stride]

theorem blk_withBlock {k c} : (st.withBlock k c).blk b = if b = st.used then some (k, c) else st.blk b :=
  Function.update_apply ..

/-! ### The order of writes -/

private theorem strdup_withWord (f : (Nat → Nat → Nat) → Nat → Nat → Nat) (s : CString) :
    ({ st with word := f st.word } : Store).strdup s =
      ({ (st.strdup s).1 with word := f (st.strdup s).1.word }, (st.strdup s).2) := by
  by_cases hfit : st.used + align8 (Kind.str.stride * (s.length + 1)) > shmIpcSize
  · have e : st.alloc .str (s.length + 1) = (st.refuse, 0) := if_pos hfit
    have e' : ({ st with word := f st.word } : Store).alloc .str (s.length + 1) =
        (({ st with word := f st.word } : Store).refuse, 0) := if_pos hfit
    simp only [strdup, e, e', ↓reduceIte]
    rfl
  · have e : st.alloc .str (s.length + 1) = (st.withBlock .str (s.length + 1), st.used) := if_neg hfit
    have e' : ({ st with word := f st.word } : Store).alloc .str (s.length + 1) =
        (({ st with word := f st.word } : Store).withBlock .str (s.length + 1), st.used) := if_neg hfit
    simp only [strdup, e, e']
    split <;> rfl

theorem strdup_setWord (s : CString) :
    (st.setWord b w v).strdup s = ((st.strdup s).1.setWord b w v, (st.strdup s).2) :=
  st.strdup_withWord (fun f => (({ st with word := f } : Store).setWord b w v).word) s

theorem setElem_setWord (h : b ≠ b') :
    (st.setWord b w v).setElem k b' n o o' = (st.setElem k b' n o o').setWord b w v := by
  unfold setElem setWord
  congr 1
  grind

theorem appendElem_eq (s s' : CString) (h : b ≠ st.word b w) :
    st.appendElem k b w s s' =
      ((((st.strdup s).1.strdup s').1.setElem k (st.word b w) (st.word b (w + 1)) (st.strdup s).2
        ((st.strdup s).1.strdup s').2).setWord b (w + 1) (st.word b (w + 1) + 1)).markInit (st.word b w)
        (st.word b (w + 1) + 1) := by
  simp only [appendElem, strdup_setWord, setElem_setWord _ h]

end Store

end CloudeLoader
