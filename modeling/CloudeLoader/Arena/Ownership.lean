import CloudeLoader.Arena.PatchMap

/-!
# Who owns which array

The lists of the map, and the lists that were removed from it but may still be written through an old patch pointer, own
their arrays of patches, and every patch of theirs owns its array of transforms: no array has two owners.
-/

namespace CloudeLoader

open ByteMemory List

variable {p : PatchShm}

namespace Store

variable {st st' : Store} {b b' c i j n : Nat} {l : PatchListShm} {hs : List PatchListShm}

/-! ### What a reading depends on -/

/-- Arrays that existed before have kept their words, and strings their bytes. -/
structure SameArrays (st st' : Store) : Prop where
  word : ∀ {b k c}, st.blk b = some (k, c) → k = .patches ∨ k = .transforms → ∀ w, st'.word b w = st.word b w
  str : ∀ {off}, st.StrOk off → st'.str off = st.str off

theorem Keeps.sameArrays (h : st.Keeps st') : st.SameArrays st' := ⟨fun hb _ w => h.word hb w, h.str⟩

theorem SameArrays.patchAt (h : st.SameArrays st') (hb : st.blk b = some (.patches, c)) :
    st'.patchAt b j = st.patchAt b j := by
  simp only [Store.patchAt, h.word hb (.inl rfl)]

theorem SameArrays.transformAt (h : st.SameArrays st') (hb : st.blk b = some (.transforms, c)) :
    st'.transformAt b n = st.transformAt b n := by
  simp only [Store.transformAt, h.word hb (.inr rfl)]

theorem readPatch_congr (h : st.Ok) (hp : st.PatchOk p)
    (hstr : ∀ {off}, st.StrOk off → st'.str off = st.str off)
    (ht : ∀ t < p.transformCount, st'.transformAt p.transformsOff t = st.transformAt p.transformsOff t) :
    st'.readPatch p = st.readPatch p := by
  obtain ⟨hfile, hfind, htr⟩ := hp
  unfold readPatch
  rw [hstr hfile, hstr hfind]
  congr 1
  refine map_congr_left fun t hlt => ?_
  have hlt : t < p.transformCount := mem_range.1 hlt
  obtain ⟨hb, hinit⟩ := ArrayOk.slot htr hlt
  obtain ⟨hm, hr⟩ := h.transforms hb hinit
  rw [ht t hlt]
  simp only [readTransform, hstr hm, hstr hr]

theorem ListOk.slot (hl : st.ListOk l) (hj : j < l.patchCount) :
    st.blk l.patchesOff = some (.patches, l.patchCapacity) ∧ j < st.init l.patchesOff :=
  ArrayOk.slot hl hj

theorem Ok.slot_patchOk (h : st.Ok) (hl : st.ListOk l) (hj : j < l.patchCount) :
    st.PatchOk (st.patchAt l.patchesOff j) :=
  h.patches (hl.slot hj).1 (hl.slot hj).2

theorem PatchOk.transforms_blk (hp : st.PatchOk p) (hn : n < p.transformCount) :
    st.blk p.transformsOff = some (.transforms, p.transformCapacity) :=
  (ArrayOk.slot hp.2.2 hn).1

theorem SameArrays.readPatch (hs : st.SameArrays st') (h : st.Ok) (hp : st.PatchOk p) :
    st'.readPatch p = st.readPatch p :=
  readPatch_congr h hp hs.str fun _ ht => hs.transformAt (hp.transforms_blk ht)

theorem SameArrays.readList (hs : st.SameArrays st') (h : st.Ok) (hl : st.ListOk l) : st'.readList l = st.readList l := by
  refine map_congr_left fun j hj => ?_
  have hj : j < l.patchCount := mem_range.1 hj
  rw [hs.patchAt (hl.slot hj).1]
  exact hs.readPatch h (h.slot_patchOk hl hj)

/-! ### Ownership -/

/-- No array belongs to two of the lists, nor to two of their patches. -/
structure Owned (st : Store) (hs : List PatchListShm) : Prop where
  ok : ∀ l ∈ hs, st.ListOk l
  lists : hs.Pairwise fun l l' => l.patchesOff = 0 ∨ l.patchesOff ≠ l'.patchesOff
  slots : ∀ {l l' j j'}, l ∈ hs → l' ∈ hs → j < l.patchCount → j' < l'.patchCount →
    l.patchesOff ≠ l'.patchesOff ∨ j ≠ j' → (st.patchAt l.patchesOff j).transformsOff = 0 ∨
      (st.patchAt l.patchesOff j).transformsOff ≠ (st.patchAt l'.patchesOff j').transformsOff

theorem owned_nil : st.Owned [] := ⟨fun _ hl => by simp at hl, List.Pairwise.nil, fun hl => by simp at hl⟩

theorem Owned.perm {hs'} (h : st.Owned hs) (hp : hs.Perm hs') : st.Owned hs' where
  ok := fun l hl => h.ok l (hp.mem_iff.2 hl)
  lists := by
    refine (hp.pairwise_iff ?_).1 h.lists
    intro l l' hll
    omega
  slots := fun hl hl' => h.slots (hp.mem_iff.2 hl) (hp.mem_iff.2 hl')

theorem Keeps.listOk (h : st.Keeps st') (hl : st.ListOk l) : st'.ListOk l := by
  rcases hl with h0 | ⟨hb, hcnt⟩
  · exact .inl h0
  · exact .inr ⟨h.blk hb, by rw [h.init hb]; exact hcnt⟩

theorem Owned.mono (h : st.Owned hs) (hsame : st.SameArrays st') (hlist : ∀ l ∈ hs, st.ListOk l → st'.ListOk l) :
    st'.Owned hs where
  ok := fun l hl => hlist l hl (h.ok l hl)
  lists := h.lists
  slots := by
    intro l l' j j' hl hl' hj hj' hne
    rw [hsame.patchAt ((h.ok l hl).slot hj).1, hsame.patchAt ((h.ok l' hl').slot hj').1]
    exact h.slots hl hl' hj hj' hne

theorem Owned.cons_null (h : st.Owned hs) : st.Owned (⟨0, 0, 0⟩ :: hs) where
  ok := by
    intro l hl
    rcases mem_cons.1 hl with rfl | hl
    · exact .inl ⟨rfl, rfl, rfl⟩
    · exact h.ok l hl
  lists := pairwise_cons.2 ⟨fun _ _ => .inl rfl, h.lists⟩
  slots := by
    intro l l' j j' hl hl' hj hj' hne
    rcases mem_cons.1 hl with rfl | hl
    · exact absurd hj (Nat.not_lt_zero j)
    · rcases mem_cons.1 hl' with rfl | hl'
      · exact absurd hj' (Nat.not_lt_zero j')
      · exact h.slots hl hl' hj hj' hne

theorem BlocksOk.ne_zero (h : st.BlocksOk) {x} (hb : st.blk b = some x) : b ≠ 0 := by
  rintro rfl
  rw [h.zero] at hb
  simp at hb

theorem Owned.ne_of_slot (h : st.Owned (l :: hs)) (hok : st.Ok) {l'} (hl' : l' ∈ hs)
    (hj : j < l.patchCount) : l.patchesOff ≠ l'.patchesOff := by
  have hslot := (h.ok l (mem_cons_self)).slot hj
  exact ((pairwise_cons.1 h.lists).1 l' hl').resolve_left (hok.blocks.ne_zero hslot.1)

theorem Owned.ne_used (h : st.Owned hs) (hok : st.Ok) (hl : l ∈ hs) : st.used ≠ l.patchesOff := by
  rcases h.ok l hl with ⟨h0, -, -⟩ | ⟨hb, -⟩
  · rw [h0]
    exact Nat.ne_of_gt hok.blocks.used_pos
  · exact (hok.blocks.ne_used hb).symm

/-! ### Moving the patches of a list -/

theorem sameArrays_movedArray (h : st.Ok) (hb : st.blk b = some (.values, c)) :
    st.SameArrays (st.movedArray .patches b (3 * i)) where
  word := by
    intro b' k c' hb' hk w
    refine word_movedArray_ne (ne_of_kind hb' hb ?_) (h.blocks.ne_used hb')
    rcases hk with rfl | rfl <;> decide
  str := fun _ => rfl

def movedList (st : Store) (l : PatchListShm) : PatchListShm :=
  { l with patchesOff := st.used, patchCapacity := nextCapacity l.patchCapacity }

theorem Ok.full_patchCount (h : st.Ok) (hl : st.ListOk l) (hfull : l.patchCapacity ≤ l.patchCount) :
    l.patchCount = l.patchCapacity :=
  Nat.le_antisymm (ArrayOk.count_le hl h.blocks) hfull

theorem readList_movedPatches (h : st.Ok) (hb : st.blk b = some (.values, c)) (hi : i < c)
    (hfull : (st.listAt b i).patchCapacity ≤ (st.listAt b i).patchCount) :
    (st.movedArray .patches b (3 * i)).readList (st.movedList (st.listAt b i)) = st.readList (st.listAt b i) := by
  have hl := h.lists hb hi
  have hcnt := h.full_patchCount hl hfull
  refine map_congr_left fun j hj => ?_
  have hj : j < (st.listAt b i).patchCount := mem_range.1 hj
  have hpat : (st.movedArray .patches b (3 * i)).patchAt st.used j = st.patchAt (st.listAt b i).patchesOff j :=
    patchAt_movedArray_used (h.blocks.ne_used hb) (Nat.lt_of_lt_of_eq hj hcnt)
  show (st.movedArray .patches b (3 * i)).readPatch ((st.movedArray .patches b (3 * i)).patchAt st.used j) = _
  rw [hpat]
  exact (sameArrays_movedArray h hb).readPatch h (h.slot_patchOk hl hj)

theorem Owned.movedPatches (ho : st.Owned (st.listAt b i :: hs)) (h : st.Ok) (hb : st.blk b = some (.values, c))
    (hi : i < c) (hfull : (st.listAt b i).patchCapacity ≤ (st.listAt b i).patchCount)
    (hle : st.Le (st.movedArray .patches b (3 * i))) : (st.movedArray .patches b (3 * i)).Owned (st.movedList (st.listAt b i) :: hs) := by
  have hl := h.lists hb hi
  have hcnt := h.full_patchCount hl hfull
  have hsame := sameArrays_movedArray (i := i) h hb
  have hrest : st.Owned hs := ⟨fun l' hl' => ho.ok l' (mem_cons_of_mem _ hl'), (pairwise_cons.1 ho.lists).2,
    fun h1 h2 => ho.slots (mem_cons_of_mem _ h1) (mem_cons_of_mem _ h2)⟩
  have hnew : ∀ j < (st.listAt b i).patchCount,
      (st.movedArray .patches b (3 * i)).patchAt st.used j = st.patchAt (st.listAt b i).patchesOff j :=
    fun j hj => patchAt_movedArray_used (h.blocks.ne_used hb) (Nat.lt_of_lt_of_eq hj hcnt)
  have hold : ∀ l' ∈ hs, ∀ j < l'.patchCount,
      (st.movedArray .patches b (3 * i)).patchAt l'.patchesOff j = st.patchAt l'.patchesOff j :=
    fun l' hl' j hj => hsame.patchAt ((hrest.ok l' hl').slot hj).1
  refine ⟨?_, ?_, ?_⟩
  · intro l' hl'
    rcases mem_cons.1 hl' with rfl | hl'
    · have := (h.movedArray (.list hb hi) hfull).lists (hle.blk hb) hi
      rw [listAt_movedArray (h.blocks.ne_used hb), if_pos ⟨rfl, rfl⟩] at this
      exact this
    · exact (hrest.ok l' hl').mono hle
  · exact pairwise_cons.2 ⟨fun l' hl' => .inr (hrest.ne_used h hl'), hrest.lists⟩
  · intro l1 l2 j1 j2 h1 h2 hj1 hj2 hne
    have hself := mem_cons_self (a := st.listAt b i) (l := hs)
    rcases mem_cons.1 h1 with rfl | h1 <;> rcases mem_cons.1 h2 with rfl | h2
    · have hj1 : j1 < (st.listAt b i).patchCount := hj1
      simp only [movedList, hnew _ hj1, hnew _ hj2]
      exact ho.slots hself hself hj1 hj2 (.inr (hne.resolve_left fun h => h rfl))
    · have hj1 : j1 < (st.listAt b i).patchCount := hj1
      simp only [movedList, hnew _ hj1, hold _ h2 _ hj2]
      exact ho.slots hself (mem_cons_of_mem _ h2) hj1 hj2 (.inl (ho.ne_of_slot h h2 hj1))
    · have hj2 : j2 < (st.listAt b i).patchCount := hj2
      simp only [movedList, hnew _ hj2, hold _ h1 _ hj1]
      exact ho.slots (mem_cons_of_mem _ h1) hself hj1 hj2 (.inl (ho.ne_of_slot h h1 hj2).symm)
    · rw [hold _ h1 _ hj1, hold _ h2 _ hj2]
      exact hrest.slots h1 h2 hj1 hj2 hne

/-! ### Appending a patch -/

section AppendPatch

variable {file find : CString} {fo no : Nat}

def countedList (l : PatchListShm) : PatchListShm := { l with patchCount := l.patchCount + 1 }

section

variable (ha : st.AppendSpec .patches b (3 * i) file find fo no st')

include ha

theorem AppendSpec.patchAt_added (hb : b' ≠ b) :
    st'.patchAt b' j = if b' = (st.listAt b i).patchesOff ∧ j = (st.listAt b i).patchCount then ⟨fo, no, 0, 0, 0⟩
      else st.patchAt b' j := by
  refine Eq.trans ?_ (patchAt_setElem st)
  simp only [Store.patchAt, ha.word, word_setWord, hb, false_and, if_false]
  rfl

theorem AppendSpec.listAt (hoff : b' ≠ (st.listAt b i).patchesOff) {i'} :
    st'.listAt b' i' = if b' = b ∧ i' = i then countedList (st.listAt b i) else st.listAt b' i' := by
  have hoff : b' ≠ st.word b (3 * i) := hoff
  simp only [Store.listAt, ha.word, word_setWord, word_setElem_ne st hoff]
  by_cases h : b' = b ∧ i' = i
  · obtain ⟨rfl, rfl⟩ := h
    simp [countedList]
  · rw [if_neg h]
    congr 1 <;> exact if_neg (by omega)

theorem AppendSpec.readPatch_kept (h : st.Ok)
    (hb : st.blk b = some (.values, c)) (hlb : st.blk (st.listAt b i).patchesOff = some (.patches, n))
    (hp : st.PatchOk p) : st'.readPatch p = st.readPatch p := by
  refine readPatch_congr h hp ha.str fun t ht => ?_
  have hblk := hp.transforms_blk ht
  simp only [Store.transformAt, ha.word_ne (ne_of_kind hblk hb (by decide)) (ne_of_kind hblk hlb (by decide))]

theorem AppendSpec.readList_self (h : st.Ok)
    (hb : st.blk b = some (.values, c)) (hi : i < c) (hlt : (st.listAt b i).patchCount < (st.listAt b i).patchCapacity)
    (hf : st'.refusals = st.refusals) :
    st'.readList (countedList (st.listAt b i)) = st.readList (st.listAt b i) ++ [⟨file, find, []⟩] := by
  have hl := h.lists hb hi
  have hlb : st.blk (st.listAt b i).patchesOff = some (.patches, (st.listAt b i).patchCapacity) :=
    ArrayOk.blk hl hlt
  have hne : (st.listAt b i).patchesOff ≠ b := ne_of_kind hlb hb (by decide)
  obtain ⟨⟨-, hfile⟩, -, hfind⟩ := ha.written hf
  unfold Store.readList countedList
  rw [range_succ, map_append]
  congr 1
  · refine map_congr_left fun j hj => ?_
    have hj : j < (st.listAt b i).patchCount := mem_range.1 hj
    rw [ha.patchAt_added hne, if_neg (by omega)]
    exact ha.readPatch_kept h hb hlb (h.slot_patchOk hl hj)
  · simp only [map_cons, map_nil]
    rw [ha.patchAt_added hne]
    simp [Store.readPatch, hfile, hfind]

theorem AppendSpec.readList_other (h : st.Ok)
    (hb : st.blk b = some (.values, c)) (hlb : st.blk (st.listAt b i).patchesOff = some (.patches, n))
    (hl : st.ListOk l) (hne : 0 < l.patchCount → l.patchesOff ≠ (st.listAt b i).patchesOff) :
    st'.readList l = st.readList l := by
  refine map_congr_left fun j hj => ?_
  have hj : j < l.patchCount := mem_range.1 hj
  rw [ha.patchAt_added (ne_of_kind (hl.slot hj).1 hb (by decide)), if_neg (fun hc => hne (by omega) hc.1)]
  exact ha.readPatch_kept h hb hlb (h.slot_patchOk hl hj)

end

theorem Owned.appendPatch (ho : st.Owned (st.listAt b i :: hs)) (hs' : st.AppendSpec .patches b (3 * i) file find fo no st')
    (h : st.Ok) (hb : st.blk b = some (.values, c)) (hi : i < c)
    (hlt : (st.listAt b i).patchCount < (st.listAt b i).patchCapacity) :
    st'.Owned (countedList (st.listAt b i) :: hs) := by
  have hl := h.lists hb hi
  have hlb : st.blk (st.listAt b i).patchesOff = some (.patches, (st.listAt b i).patchCapacity) :=
    ArrayOk.blk hl hlt
  have hne : (st.listAt b i).patchesOff ≠ b := ne_of_kind hlb hb (by decide)
  have hoff0 := h.blocks.ne_zero hlb
  have hlis := pairwise_cons.1 ho.lists
  -- the other lists keep their patches, and so does this one below the new patch
  have hold : ∀ l' ∈ hs, ∀ j < l'.patchCount, st'.patchAt l'.patchesOff j = st.patchAt l'.patchesOff j := by
    intro l' hl' j hj
    have hslot := ((ho.ok l' (mem_cons_of_mem _ hl')).slot hj).1
    rw [hs'.patchAt_added (ne_of_kind hslot hb (by decide)), if_neg]
    intro hc
    exact (hlis.1 l' hl').resolve_left hoff0 hc.1.symm
  have hself : ∀ j, st'.patchAt (st.listAt b i).patchesOff j =
      if j = (st.listAt b i).patchCount then ⟨fo, no, 0, 0, 0⟩ else st.patchAt (st.listAt b i).patchesOff j := by
    intro j
    rw [hs'.patchAt_added hne]
    simp only [true_and]
  have hmem := mem_cons_self (a := st.listAt b i) (l := hs)
  refine ⟨?_, ?_, ?_⟩
  · intro l' hl'
    rcases mem_cons.1 hl' with rfl | hl'
    · have := hs'.ok.lists (hs'.blk hb) hi
      rw [hs'.listAt hne.symm, if_pos ⟨rfl, rfl⟩] at this
      exact this
    · exact (ho.ok l' (mem_cons_of_mem _ hl')).mono hs'.le
  · exact pairwise_cons.2 ⟨hlis.1, hlis.2⟩
  · intro l1 l2 j1 j2 h1 h2 hj1 hj2 hne'
    rcases mem_cons.1 h1 with rfl | h1 <;> rcases mem_cons.1 h2 with rfl | h2
    · have hj1 : j1 < (st.listAt b i).patchCount + 1 := hj1
      have hj2 : j2 < (st.listAt b i).patchCount + 1 := hj2
      have hjne : j1 ≠ j2 := hne'.resolve_left fun h => h rfl
      simp only [countedList, hself]
      split
      · exact .inl rfl
      · split
        · exact Decidable.em _
        · exact ho.slots hmem hmem (by omega) (by omega) (.inr hjne)
    · have hj1 : j1 < (st.listAt b i).patchCount + 1 := hj1
      simp only [countedList, hself, hold _ h2 _ hj2]
      split
      · exact .inl rfl
      · exact ho.slots hmem (mem_cons_of_mem _ h2) (by omega) hj2 hne'
    · have hj2 : j2 < (st.listAt b i).patchCount + 1 := hj2
      simp only [countedList, hself, hold _ h1 _ hj1]
      split
      · exact Decidable.em _
      · exact ho.slots (mem_cons_of_mem _ h1) hmem hj1 (by omega) hne'
    · rw [hold _ h1 _ hj1, hold _ h2 _ hj2]
      exact ho.slots (mem_cons_of_mem _ h1) (mem_cons_of_mem _ h2) hj1 hj2 hne'

end AppendPatch

/-! ### Moving the transforms of a patch -/

theorem readPatch_movedTransforms (h : st.Ok) (hb : st.blk b = some (.patches, c)) (hj : j < st.init b)
    (hfull : (st.patchAt b j).transformCapacity ≤ (st.patchAt b j).transformCount) {n' j'}
    (hb' : st.blk b' = some (.patches, n')) (hj' : j' < st.init b') :
    (st.movedArray .transforms b (5 * j + 2)).readPatch ((st.movedArray .transforms b (5 * j + 2)).patchAt b' j') = st.readPatch (st.patchAt b' j') := by
  have hp := h.patches hb hj
  rw [patchAt_movedArray (h.blocks.ne_used hb')]
  split
  · rename_i heq
    obtain ⟨rfl, rfl⟩ := heq
    have hcnt := Nat.le_antisymm (ArrayOk.count_le hp.2.2 h.blocks) hfull
    refine congrArg (Patch.mk _ _) (map_congr_left fun t ht => ?_)
    have ht : t < (st.patchAt b' j').transformCount := mem_range.1 ht
    rw [transformAt_movedArray_used (h.blocks.ne_used hb') (Nat.lt_of_lt_of_eq ht hcnt)]
    rfl
  · refine readPatch_congr h (h.patches hb' hj') (fun _ => rfl) fun t ht => ?_
    have hblk := (h.patches hb' hj').transforms_blk ht
    simp only [transformAt, word_movedArray_ne (ne_of_kind hblk hb (by decide)) (h.blocks.ne_used hblk)]

theorem readList_movedTransforms (h : st.Ok) (hb : st.blk b = some (.patches, c)) (hj : j < st.init b)
    (hfull : (st.patchAt b j).transformCapacity ≤ (st.patchAt b j).transformCount) (hl : st.ListOk l) :
    (st.movedArray .transforms b (5 * j + 2)).readList l = st.readList l := by
  refine map_congr_left fun j' hj' => ?_
  have hslot := hl.slot (mem_range.1 hj')
  exact readPatch_movedTransforms h hb hj hfull hslot.1 hslot.2

theorem Owned.movedTransforms (ho : st.Owned hs) (h : st.Ok) (hle : st.Le (st.movedArray .transforms b (5 * j + 2))) :
    (st.movedArray .transforms b (5 * j + 2)).Owned hs where
  ok := fun l hl => (ho.ok l hl).mono hle
  lists := ho.lists
  slots := by
    intro l1 l2 j1 j2 h1 h2 hj1 hj2 hne
    have hs1 := (ho.ok l1 h1).slot hj1
    have hs2 := (ho.ok l2 h2).slot hj2
    have hused : ∀ {l' j'}, l' ∈ hs → j' < l'.patchCount → (st.patchAt l'.patchesOff j').transformsOff ≠ st.used := by
      intro l' j' hl' hj'
      rcases (h.slot_patchOk (ho.ok l' hl') hj').2.2 with ⟨h0, -⟩ | ⟨hblk, -⟩
      · rw [h0]
        exact Nat.ne_of_lt h.blocks.used_pos
      · exact h.blocks.ne_used hblk
    rw [patchAt_movedArray (h.blocks.ne_used hs1.1), patchAt_movedArray (h.blocks.ne_used hs2.1)]
    -- the moved patch has a new array, which none had before
    split
    · split
      · omega
      · exact .inr (hused h2 hj2).symm
    · split
      · exact .inr (hused h1 hj1)
      · exact ho.slots h1 h2 hj1 hj2 hne

/-! ### Appending a transform -/

section AppendTransform

variable {mtch replace : CString} {mo ro : Nat}

section

variable (ha : st.AppendSpec .transforms b (5 * j + 2) mtch replace mo ro st')

include ha

theorem AppendSpec.patchAt_counted (hoff : b' ≠ (st.patchAt b j).transformsOff) {j'} :
    st'.patchAt b' j' = if b' = b ∧ j' = j then
      { st.patchAt b j with transformCount := (st.patchAt b j).transformCount + 1 } else st.patchAt b' j' := by
  have hoff : b' ≠ st.word b (5 * j + 2) := hoff
  simp only [Store.patchAt, ha.word, word_setWord, word_setElem_ne st hoff]
  by_cases h : b' = b ∧ j' = j
  · obtain ⟨rfl, rfl⟩ := h
    simp
    omega
  · rw [if_neg h]
    congr 1 <;> exact if_neg (by omega)

theorem AppendSpec.transformAt_added (hb : b' ≠ b) :
    st'.transformAt b' n = if b' = (st.patchAt b j).transformsOff ∧ n = (st.patchAt b j).transformCount then ⟨mo, ro⟩
      else st.transformAt b' n := by
  refine Eq.trans ?_ (transformAt_setElem st)
  simp only [Store.transformAt, ha.word, word_setWord, hb, false_and, if_false]
  rfl

theorem AppendSpec.readPatch_self (h : st.Ok)
    (hb : st.blk b = some (.patches, c)) (hj : j < st.init b)
    (hlt : (st.patchAt b j).transformCount < (st.patchAt b j).transformCapacity) (hf : st'.refusals = st.refusals) :
    st'.readPatch (st'.patchAt b j) = (st.readPatch (st.patchAt b j)).addTransform mtch replace := by
  have hp := h.patches hb hj
  have hblk : st.blk (st.patchAt b j).transformsOff = some (.transforms, (st.patchAt b j).transformCapacity) :=
    hp.2.2.blk hlt
  have hne : b ≠ (st.patchAt b j).transformsOff := ne_of_kind hb hblk (by decide)
  obtain ⟨⟨-, hm⟩, -, hr⟩ := ha.written hf
  rw [ha.patchAt_counted hne, if_pos ⟨rfl, rfl⟩]
  simp only [Store.readPatch, Patch.addTransform, ha.str hp.1, ha.str hp.2.1]
  refine congrArg (Patch.mk _ _) ?_
  rw [range_succ, map_append]
  congr 1
  · refine map_congr_left fun t ht => ?_
    have ht : t < (st.patchAt b j).transformCount := mem_range.1 ht
    obtain ⟨-, hcnt⟩ | ⟨-, hcnt⟩ := hp.2.2
    · omega
    · obtain ⟨h1, h2⟩ := h.transforms hblk (show t < st.init (st.patchAt b j).transformsOff by omega)
      rw [ha.transformAt_added hne.symm, if_neg (by omega)]
      simp only [Store.readTransform, ha.str h1, ha.str h2]
  · simp only [map_cons, map_nil]
    rw [ha.transformAt_added hne.symm]
    simp [Store.readTransform, hm, hr]

theorem AppendSpec.readPatch_other (h : st.Ok)
    (hb : st.blk b = some (.patches, c)) (hblk : st.blk (st.patchAt b j).transformsOff = some (.transforms, n))
    {n' j'} (hb' : st.blk b' = some (.patches, n')) (hj' : j' < st.init b') (hne : b' ≠ b ∨ j' ≠ j)
    (hoff : (st.patchAt b' j').transformsOff = 0 ∨ (st.patchAt b' j').transformsOff ≠ (st.patchAt b j).transformsOff) :
    st'.readPatch (st'.patchAt b' j') = st.readPatch (st.patchAt b' j') := by
  have hp := h.patches hb' hj'
  rw [ha.patchAt_counted (ne_of_kind hb' hblk (by decide)), if_neg (by omega)]
  refine readPatch_congr h hp ha.str fun t ht => ?_
  have htb := hp.transforms_blk ht
  rw [ha.transformAt_added (ne_of_kind htb hb (by decide)), if_neg]
  intro hc
  exact (hoff.resolve_left (h.blocks.ne_zero htb)) hc.1

end

theorem AppendSpec.readList_modify (hs' : st.AppendSpec .transforms b (5 * j + 2) mtch replace mo ro st') (ho : st.Owned hs)
    (h : st.Ok) (hlt : (st.patchAt b j).transformCount < (st.patchAt b j).transformCapacity)
    (hf : st'.refusals = st.refusals) {l₀} (hl₀ : l₀ ∈ hs) (hb₀ : l₀.patchesOff = b) (hj₀ : j < l₀.patchCount)
    (hl : l ∈ hs) : st'.readList l =
      if l.patchesOff = b then (st.readList l).modify j fun p => p.addTransform mtch replace else st.readList l := by
  subst hb₀
  have hslot₀ := (ho.ok l₀ hl₀).slot hj₀
  have hp₀ := h.slot_patchOk (ho.ok l₀ hl₀) hj₀
  have hblk : st.blk (st.patchAt l₀.patchesOff j).transformsOff =
      some (.transforms, (st.patchAt l₀.patchesOff j).transformCapacity) :=
    hp₀.2.2.blk hlt
  have hoth : ∀ j' < l.patchCount, l.patchesOff ≠ l₀.patchesOff ∨ j' ≠ j →
      st'.readPatch (st'.patchAt l.patchesOff j') = st.readPatch (st.patchAt l.patchesOff j') := by
    intro j' hj' hne
    have hslot := (ho.ok l hl).slot hj'
    exact hs'.readPatch_other h hslot₀.1 hblk hslot.1 hslot.2 hne (ho.slots hl hl₀ hj' hj₀ hne)
  split
  · rename_i heq
    refine List.ext_getElem? fun j' => ?_
    simp only [List.getElem?_modify, Store.readList, List.getElem?_map]
    by_cases hj' : j' < l.patchCount
    · rw [List.getElem?_range hj']
      simp only [Option.map_some, Option.map_eq_map]
      by_cases hjj : j = j'
      · subst hjj
        rw [if_pos rfl, heq, hs'.readPatch_self h hslot₀.1 hslot₀.2 hlt hf]
      · rw [if_neg hjj, hoth j' hj' (.inr (Ne.symm hjj))]
    · rw [List.getElem?_eq_none (by simpa using hj')]
      rfl
  · rename_i hne
    exact List.map_congr_left fun j' hj' => hoth j' (List.mem_range.1 hj') (.inl hne)

theorem Owned.appendTransform (ho : st.Owned hs) (hs' : st.AppendSpec .transforms b (5 * j + 2) mtch replace mo ro st')
    (hblk : st.blk (st.patchAt b j).transformsOff = some (.transforms, n)) : st'.Owned hs where
  ok := fun l hl => (ho.ok l hl).mono hs'.le
  lists := ho.lists
  slots := by
    intro l1 l2 j1 j2 h1 h2 hj1 hj2 hne
    have hkeep : ∀ {l' j'}, l' ∈ hs → j' < l'.patchCount →
        (st'.patchAt l'.patchesOff j').transformsOff = (st.patchAt l'.patchesOff j').transformsOff := by
      intro l' j' hl' hj'
      rw [hs'.patchAt_counted (ne_of_kind ((ho.ok l' hl').slot hj').1 hblk (by decide))]
      split
      · rename_i heq
        rw [heq.1, heq.2]
      · rfl
    rw [hkeep h1 hj1, hkeep h2 hj2]
    exact ho.slots h1 h2 hj1 hj2 hne

end AppendTransform

end Store

end CloudeLoader
