import CloudeLoader.Arena.Effects

/-!
# What a call leaves behind when the arena is full

A call that adds something makes room in an array first and copies its strings afterwards.  If there is no room for a
larger array the call gives up and nothing is seen of it.
-/

namespace CloudeLoader

open ByteMemory Arena Option List Nat

variable {key : CString}

namespace Store

variable {st st' : Store} {b b' c i j n w : Nat} {k : Kind} {l : PatchListShm} {str str' : CString}

/-! ### No offset is zero -/

/-- All strings that were to be copied are there: no key of the map, and no patch or transform ever written, has a zero
offset. -/
structure Whole (st : Store) : Prop where
  keys : ∀ i < st.count, st.word st.keysOff i ≠ 0
  elems : ∀ {b k c j}, st.blk b = some (k, c) → k.IsArray → j < st.init b → ∀ x < 2, st.word b (k.words * j + x) ≠ 0

private theorem BlocksOk.old_of_init (h : st.BlocksOk) (hblk : ∀ {b x}, st.blk b = some x → st'.blk b = some x)
    {x} (hb : st'.blk b = some x) (hj : j < st.init b) : st.blk b = some x := by
  cases he : st.blk b with
  | none =>
    rw [h.init_none he] at hj
    omega
  | some y => rw [← hblk he, hb]

private theorem Whole.keep (hw : st.Whole) (h : st.BlocksOk) (hblk : ∀ {b x}, st.blk b = some x → st'.blk b = some x)
    (hinit : st'.init = st.init) (hsame : st.SameArrays st') (hkeys : ∀ i < st'.count, st'.word st'.keysOff i ≠ 0) :
    st'.Whole := by
  refine ⟨hkeys, ?_⟩
  intro b k c j hb hk hj x hx
  rw [hinit] at hj
  have hb' := h.old_of_init hblk hb hj
  rw [hsame.word hb' hk]
  exact hw.elems hb' hk hj x hx

theorem Whole.movedArray (hw : st.Whole) (h : st.Ok) (hh : st.Head k b w) (hfull : st.word b (w + 2) ≤ st.word b (w + 1)) :
    (st.movedArray k b w).Whole := by
  have hinit : ∀ b', (st.movedArray k b w).init b' = if b' = st.used then max (st.init st.used) (st.word b (w + 2))
      else st.init b' := fun b' => init_markInit
  refine ⟨?_, ?_⟩
  · intro i hi
    show (st.movedArray k b w).word st.keysOff i ≠ 0
    rw [word_movedArray_ne (hh.ne_block h h.keys (by decide)) (h.blocks.ne_used h.keys)]
    exact hw.keys i hi
  · intro b' k' c j hb' hk' hj x hx
    have hblk' : (st.withBlock k (nextCapacity (st.word b (w + 2)))).blk b' = some (k', c) := hb'
    rw [hinit] at hj
    rw [blk_withBlock] at hblk'
    split at hj
    · -- the copied part of the new array
      rename_i he
      subst he
      rw [if_pos rfl] at hblk'
      injection hblk' with hblk'
      injection hblk' with hkk _
      subst hkk
      rw [h.blocks.init_none (h.blocks.fresh (le_refl _)), zero_max] at hj
      obtain ⟨hblk, hj'⟩ := (h.heads hh).slot (lt_of_lt_of_le hj hfull)
      rw [word_movedArray_used (hh.ne_used h) hj (lt_of_lt_of_le hx hk'.two_le)]
      exact hw.elems hblk hk' hj' x hx
    · rename_i hne
      rw [if_neg hne] at hblk'
      have hold := hw.elems hblk' hk' hj x hx
      by_cases he : b' = b
      · subst he
        have hfar := hh.elem_far (j := j) hblk' hk' hx
        rw [word_movedArray hne, if_neg (by omega), if_neg (by omega)]
        exact hold
      · rw [word_movedArray_ne he hne]
        exact hold

theorem Whole.append {o o'} (hw : st.Whole) (h : st.Ok) (hh : st.Head k b w) (hs : st.AppendSpec k b w str str' o o' st')
    (hlt : st.word b (w + 1) < st.word b (w + 2)) (hr : st'.refusals = st.refusals) : st'.Whole := by
  obtain ⟨⟨ho, -⟩, ho', -⟩ := hs.written hr
  obtain ⟨hko, -, hcn, -⟩ := hs.map
  obtain ⟨hblk, hcnt⟩ := (h.heads hh).present (.inr (by omega))
  refine ⟨?_, ?_⟩
  · intro i hi
    have hkey : Kind.keys ≠ k := by rcases hh.isArray with rfl | rfl <;> decide
    rw [hko, hs.word_ne (hh.ne_block h h.keys (by decide)) (ne_of_kind h.keys hblk hkey)]
    exact hw.keys i (by omega)
  · intro b' k' c j hb' hk' hj x hx
    rw [hs.init] at hj
    have hold : b' = st.word b w ∧ j = st.word b (w + 1) ∨ j < st.init b' := by
      rcases lt_init_markInit hj with hj | ⟨rfl, hj⟩
      · exact .inr hj
      · omega
    have hb'' : st.blk b' = some (k', c) := by
      rcases hold with ⟨rfl, -⟩ | hj'
      · rw [← hb', hblk, hs.blk hblk]
      · exact h.blocks.old_of_init hs.blk hb' hj'
    rw [hs.word_elem hh hblk hb'' hk' hx]
    split
    · split
      · exact ho
      · exact ho'
    · rename_i hne
      exact hw.elems hb'' hk' (hold.resolve_left hne) x hx

/-! ### Room for the arrays -/

section Room

variable (hle : st.used ≤ shmIpcSize)
include hle

theorem KeyRoom.growth_le (hr : st.KeyRoom st') : st.used + mapGrowth st.count st.capacity ≤ shmIpcSize := by
  refine used_growth_le hle fun hfull => ?_
  cases hr with
  | fits hlt => omega
  | moved _ _ hg => exact hg.spends.refusals_eq_iff.1 hg.refusals

theorem Room.growth_le (hr : st.Room k b w st') :
    st.used + arrayGrowth k (st.word b (w + 1)) (st.word b (w + 2)) ≤ shmIpcSize := by
  refine used_growth_le hle fun hfull => ?_
  cases hr with
  | fits hlt => omega
  | moved _ hfit => exact hfit

end Room

/-! ### Calls that fail in one piece -/

def Torn (st : Store) (arrays strings : Nat) : Prop :=
  st.used + arrays ≤ shmIpcSize ∧ shmIpcSize < st.used + (arrays + strings)

theorem fits_of_not_torn {arrays strings} (h : ¬st.Torn arrays strings) (ha : st.used + arrays ≤ shmIpcSize) :
    st.used + (arrays + strings) ≤ shmIpcSize := not_lt.1 fun hlt => h ⟨ha, hlt⟩

theorem Whole.addKey (hw : st.Whole) (h : st.Ok) (hle : st.used ≤ shmIpcSize)
    (hnone : st.index key = none) (hun : ¬st.Torn (mapGrowth st.count st.capacity) (strSize key)) :
    (st.addKey key).1.Whole := by
  rcases addKey_cases h hnone with ⟨st', -, -, hs, e⟩ | ⟨st1, hr, e⟩
  · rw [e]
    obtain ⟨hko, -, hcn, -⟩ := hs.map
    refine hw.keep h.blocks hs.keeps.blk hs.init hs.keeps.sameArrays fun i hi => ?_
    have hi : i < st'.count := hi
    show st'.word st'.keysOff i ≠ 0
    rw [hko, hs.keeps.word h.keys]
    exact hw.keys i (by omega)
  · have hfits := (h.addKey_spends hnone).refusals_eq_iff.2 (fits_of_not_torn hun (hr.growth_le hle))
    have h1 := hr.ok h
    obtain ⟨off, st', e', hs⟩ := h1.append (hr.lt h) key
    rw [e, e'] at hfits ⊢
    have hoff := (hs.written (hfits.trans hr.refusals.symm)).1
    have hsame : st.SameArrays st' := by
      refine ⟨fun hb hk w => ?_, fun hoff => ?_⟩
      · rw [(hs.sameArrays h1).word (hr.keeps.blk hb) hk, hr.keeps.word hb]
      · rw [hs.str (hr.keeps.strOk hoff), hr.keeps.str hoff]
    refine hw.keep h.blocks (fun hb => hs.blk (hr.keeps.blk hb)) (hs.init.trans hr.init) hsame fun i hi => ?_
    show st'.word st'.keysOff i ≠ 0
    rw [hs.keysOff, hs.word, word_clearHead, if_neg (fun hc => ne_of_kind h1.keys h1.values (by decide) hc.1)]
    by_cases he : i = st1.count
    · simpa [setWord, he] using hoff
    · have hi' : i < st.count := by
        rw [hs.count, hr.count] at hi
        rw [hr.count] at he
        omega
      simp only [setWord, he, and_false, ↓reduceIte]
      rw [hr.key h hi']
      exact hw.keys i hi'

theorem Whole.remove (hw : st.Whole) (h : st.Ok) (key : CString) : (st.remove key).Whole := by
  cases hidx : st.index key with
  | none =>
    have e : st.remove key = st := by simp only [Store.remove, hidx]
    rw [e]
    exact hw
  | some i =>
    have hs := h.remove hidx
    refine hw.keep h.blocks (fun hb => by rw [hs.blk]; exact hb) hs.init (hs.sameArrays h) fun i' hi' => ?_
    have hcnt := hs.count
    rw [hs.keysOff, hs.key (by omega)]
    split
    · exact hw.keys _ (by omega)
    · exact hw.keys _ (by omega)

theorem Whole.addElem (hw : st.Whole) (h : st.Ok) (hle : st.used ≤ shmIpcSize) (hh : st.Head k b w)
    (hun : ¬st.Torn (arrayGrowth k (st.word b (w + 1)) (st.word b (w + 2))) (strSize str + strSize str')) :
    (st.addElem k b w str str').1.Whole := by
  rcases addElem_cases h hh str str' with ⟨-, -, e⟩ | ⟨st1, hr, e⟩
  · rw [e]
    exact ⟨hw.keys, hw.elems⟩
  · have hfits := (h.addElem_spends hh str str').refusals_eq_iff.2 (fits_of_not_torn hun (hr.growth_le hle))
    have hw1 : st1.Whole := by
      cases hr with
      | fits => exact hw
      | moved hfull => exact hw.movedArray h hh hfull
    obtain ⟨_, _, hs⟩ := hr.append h hh str str'
    rw [e] at hfits ⊢
    exact hw1.append (hr.ok h hh) (hh.mono (hr.le h)) hs (hr.lt h hh) (hfits.trans hr.refusals.symm)

/-! ### Calls that are torn -/

def NoZeroOffset (st : Store) : Prop :=
  ∀ i < st.count, st.word st.keysOff i ≠ 0 ∧ ∀ j < (st.listAt st.valuesOff i).patchCount,
    let p := st.patchAt (st.listAt st.valuesOff i).patchesOff j
    p.fileOff ≠ 0 ∧ p.findOff ≠ 0 ∧ ∀ t < p.transformCount,
      (st.transformAt p.transformsOff t).matchOff ≠ 0 ∧ (st.transformAt p.transformsOff t).replaceOff ≠ 0

theorem Whole.noZeroOffset (hw : st.Whole) (h : st.Ok) : st.NoZeroOffset := by
  intro i hi
  refine ⟨hw.keys i hi, fun j hj => ?_⟩
  obtain ⟨hb, hj'⟩ := (h.lists h.values (lt_of_lt_of_le hi h.count_le)).slot hj
  have hstr := hw.elems hb (.inl rfl) hj'
  refine ⟨hstr 0 (by omega), hstr 1 (by omega), fun t ht => ?_⟩
  obtain ⟨htb, ht'⟩ := ArrayOk.slot (h.patches hb hj').2.2 ht
  have hstr := hw.elems htb (.inr rfl) ht'
  exact ⟨hstr 0 (by omega), hstr 1 (by omega)⟩

theorem getElem?_readMap (hi : i < st.count) :
    st.readMap[i]? = some (st.str (st.word st.keysOff i), st.readList (st.listAt st.valuesOff i)) := by
  unfold readMap
  rw [getElem?_map, getElem?_entries hi]
  rfl

theorem addKey_torn (h : st.Ok) (hnone : st.index key = none)
    (htorn : st.Torn (mapGrowth st.count st.capacity) (strSize key)) :
    (st.addKey key).1.readMap ≠ st.readMap ∧ ¬(st.addKey key).1.NoZeroOffset := by
  obtain ⟨hgrow, hfull⟩ := htorn
  have hspn := h.addKey_spends hnone
  rcases addKey_cases h hnone with ⟨st', hcap, -, hs, e⟩ | ⟨st1, hr, e⟩
  · have hlt := hs.full
    rw [mapGrowth, if_neg (not_lt.2 hcap)] at hgrow
    omega
  · have h1 := hr.ok h
    obtain ⟨off, st', e', hs⟩ := h1.append (hr.lt h) key
    rw [e, e'] at hspn ⊢
    have href := hspn.full (by omega)
    have hoff := hs.refused (by rw [hr.refusals]; exact ne_of_gt href)
    have hcnt : st'.count = st.count + 1 := by rw [hs.count, hr.count]
    constructor
    · intro he
      have hlen := congrArg length he
      simp only [readMap, length_map, entries_length] at hlen
      omega
    · intro hz
      have hkey := (hz st.count (show st.count < st'.count by omega)).1
      rw [hs.keysOff, hs.word, word_clearHead, if_neg (fun hc => ne_of_kind h1.keys h1.values (by decide) hc.1),
        ← hr.count] at hkey
      simp [setWord, hoff] at hkey

/-- The array counts one element more, of which a string is missing. -/
theorem addElem_torn (h : st.Ok) (hh : st.Head k b w)
    (htorn : st.Torn (arrayGrowth k (st.word b (w + 1)) (st.word b (w + 2))) (strSize str + strSize str')) :
    let st' := (st.addElem k b w str str').1
    st.SameMap st' ∧ st'.word b (w + 1) = st.word b (w + 1) + 1 ∧
      (∃ x < 2, st'.word (st'.word b w) (k.words * st.word b (w + 1) + x) = 0) ∧
      ∀ {v}, b ≠ st.valuesOff → st'.word st.valuesOff v = st.word st.valuesOff v := by
  obtain ⟨hgrow, hfull⟩ := htorn
  have hspn := h.addElem_spends hh str str'
  rcases addElem_cases h hh str str' with ⟨hcap, hlt, -⟩ | ⟨st1, hr, e⟩
  · rw [arrayGrowth, if_neg (not_lt.2 hcap)] at hgrow
    omega
  · obtain ⟨o, o', hs⟩ := hr.append h hh str str'
    rw [e] at hspn ⊢
    have href := hspn.full (by omega)
    have hoff := hs.refused (by rw [hr.refusals]; exact ne_of_gt href)
    have h1 := hr.ok h hh
    have hh1 := hh.mono (hr.le h)
    have hlt := hr.lt h hh
    have hne := hh1.ne_off h1 hlt
    have hcnt := (hr.sizes (hh.ne_used h)).1
    refine ⟨hr.map.trans hs.map, ?_, ?_, fun hbv => ?_⟩
    · rw [hs.word, word_setWord, if_pos ⟨rfl, rfl⟩, hcnt]
    · have hblk := (h1.heads hh1).blk hlt
      rw [hs.word_off hne, ← hcnt]
      rcases hoff with rfl | rfl
      · exact ⟨0, by omega, by rw [hs.word_elem hh1 hblk hblk hh.isArray (by omega), if_pos ⟨rfl, rfl⟩, if_pos rfl]⟩
      · exact ⟨1, by omega, by rw [hs.word_elem hh1 hblk hblk hh.isArray (by omega), if_pos ⟨rfl, rfl⟩, if_neg (by omega)]⟩
    · have hval : Kind.values ≠ k := by rcases hh.isArray with rfl | rfl <;> decide
      rw [hs.word_ne hbv.symm (ne_of_kind ((hr.le h).blk h.values) ((h1.heads hh1).blk hlt) hval)]
      exact hr.word_ne h h.values hbv.symm

theorem addPatch_torn (h : st.Ok) (hi : i < st.count) {file find} (htorn : st.Torn
      (arrayGrowth .patches (st.listAt st.valuesOff i).patchCount (st.listAt st.valuesOff i).patchCapacity)
      (strSize file + strSize find)) : (st.addPatch st.valuesOff i file find).1.readMap ≠ st.readMap ∧
      ¬(st.addPatch st.valuesOff i file find).1.NoZeroOffset := by
  rw [addPatch_fst]
  obtain ⟨⟨-, hvo, hcn, -⟩, hcnt, hzero, -⟩ :=
    addElem_torn h (.list h.values (lt_of_lt_of_le hi h.count_le)) htorn
  generalize (st.addElem .patches st.valuesOff (3 * i) file find).1 = st' at *
  have hcnt : (st'.listAt st'.valuesOff i).patchCount = (st.listAt st.valuesOff i).patchCount + 1 := by
    rw [hvo]
    exact hcnt
  constructor
  · intro he
    have hlen : (st'.readMap[i]?.map fun x => x.2.length) = st.readMap[i]?.map fun x => x.2.length := by rw [he]
    rw [getElem?_readMap (by omega), getElem?_readMap hi] at hlen
    simp only [map_some, readList, length_map, length_range, some.injEq] at hlen
    omega
  · intro hz
    obtain ⟨hfile, hfind, -⟩ := (hz i (by omega)).2 (st.listAt st.valuesOff i).patchCount (by omega)
    rw [hvo] at hfile hfind
    obtain ⟨x, hx, hzero⟩ := hzero
    obtain rfl | rfl : x = 0 ∨ x = 1 := by omega
    · exact hfile hzero
    · exact hfind hzero

theorem addTransform_torn (h : st.Ok) (hi : i < st.count) (hl : st.listAt st.valuesOff i = l) (hj : j < l.patchCount)
    {mtch replace} (htorn : st.Torn (arrayGrowth .transforms (st.patchAt l.patchesOff j).transformCount
      (st.patchAt l.patchesOff j).transformCapacity) (strSize mtch + strSize replace)) :
    (st.addTransform l.patchesOff j mtch replace).readMap ≠ st.readMap ∧
      ¬(st.addTransform l.patchesOff j mtch replace).NoZeroOffset := by
  have hlok : st.ListOk l := hl ▸ h.lists h.values (lt_of_lt_of_le hi h.count_le)
  obtain ⟨hb, hj'⟩ := hlok.slot hj
  unfold addTransform
  obtain ⟨⟨-, hvo, hcn, -⟩, hcnt, hzero, hval⟩ := addElem_torn h (.patch hb hj') htorn
  generalize (st.addElem .transforms l.patchesOff (5 * j + 2) mtch replace).1 = st' at *
  have hcnt : (st'.patchAt l.patchesOff j).transformCount = (st.patchAt l.patchesOff j).transformCount + 1 := hcnt
  have hlist : st'.listAt st'.valuesOff i = l := by
    rw [hvo, ← hl]
    simp only [listAt, hval (ne_of_kind hb h.values (by decide))]
  constructor
  · intro he
    have hlen : (st'.readMap[i]?.map fun x => x.2[j]?.map fun p => p.transforms.length) =
        st.readMap[i]?.map fun x => x.2[j]?.map fun p => p.transforms.length := by rw [he]
    rw [getElem?_readMap (by omega), getElem?_readMap hi, hlist, hl] at hlen
    simp only [map_some, readList, getElem?_map, getElem?_range hj, readPatch, length_map,
      length_range, some.injEq] at hlen
    omega
  · intro hz
    have htr := (hz i (by omega)).2 j (by rw [hlist]; exact hj)
    rw [hlist] at htr
    obtain ⟨hmatch, hreplace⟩ := htr.2.2 (st.patchAt l.patchesOff j).transformCount (by omega)
    obtain ⟨x, hx, hzero⟩ := hzero
    obtain rfl | rfl : x = 0 ∨ x = 1 := by omega
    · exact hmatch hzero
    · exact hreplace hzero

/-! ### A call fails in one piece unless it is torn -/

theorem addKey_atomic (h : st.Ok) (hle : st.used ≤ shmIpcSize) (hnone : st.index key = none) :
    (st.refusals < (st.addKey key).1.refusals → (st.addKey key).1.readMap = st.readMap) ↔
      ¬st.Torn (mapGrowth st.count st.capacity) (strSize key) := by
  have hspn := h.addKey_spends hnone
  constructor
  · intro hat htorn
    exact (addKey_torn h hnone htorn).1 (hat (hspn.full htorn.2))
  · intro hun href
    rcases addKey_cases h hnone with ⟨st', -, -, hs, e⟩ | ⟨st1, hr, -⟩
    · rw [e]
      refine readMap_congr h hs.keeps.sameArrays (entries_congr h hs.map ?_ hs.keeps.str ?_)
      · exact fun i _ => hs.keeps.word h.keys i
      · exact fun i _ => by simp only [listAt, hs.keeps.word h.values]
    · have := hspn.refusals_eq_iff.2 (fits_of_not_torn hun (hr.growth_le hle))
      omega

private theorem addElem_refused (h : st.Ok) (hle : st.used ≤ shmIpcSize) (hh : st.Head k b w)
    (hun : ¬st.Torn (arrayGrowth k (st.word b (w + 1)) (st.word b (w + 2))) (strSize str + strSize str'))
    (href : st.refusals < (st.addElem k b w str str').1.refusals) : (st.addElem k b w str str').1 = st.refuse := by
  rcases addElem_cases h hh str str' with ⟨-, -, e⟩ | ⟨st1, hr, -⟩
  · rw [e]
  · have := (h.addElem_spends hh str str').refusals_eq_iff.2 (fits_of_not_torn hun (hr.growth_le hle))
    omega

theorem addPatch_atomic (h : st.Ok) (hle : st.used ≤ shmIpcSize) (hi : i < st.count) (file find : CString) :
    (st.refusals < (st.addPatch st.valuesOff i file find).1.refusals →
      (st.addPatch st.valuesOff i file find).1.readMap = st.readMap) ↔
      ¬st.Torn (arrayGrowth .patches (st.listAt st.valuesOff i).patchCount (st.listAt st.valuesOff i).patchCapacity)
        (strSize file + strSize find) := by
  have hh : st.Head .patches st.valuesOff (3 * i) := .list h.values (lt_of_lt_of_le hi h.count_le)
  constructor
  · intro hat htorn
    refine (addPatch_torn h hi htorn).1 (hat ?_)
    rw [addPatch_fst]
    exact (h.addElem_spends hh file find).full htorn.2
  · intro hun href
    rw [addPatch_fst] at href ⊢
    rw [addElem_refused h hle hh hun href]
    rfl

theorem addTransform_atomic (h : st.Ok) (hle : st.used ≤ shmIpcSize) (hi : i < st.count)
    (hl : st.listAt st.valuesOff i = l) (hj : j < l.patchCount) (mtch replace : CString) :
    (st.refusals < (st.addTransform l.patchesOff j mtch replace).refusals →
      (st.addTransform l.patchesOff j mtch replace).readMap = st.readMap) ↔
      ¬st.Torn (arrayGrowth .transforms (st.patchAt l.patchesOff j).transformCount
        (st.patchAt l.patchesOff j).transformCapacity) (strSize mtch + strSize replace) := by
  have hlok : st.ListOk l := hl ▸ h.lists h.values (lt_of_lt_of_le hi h.count_le)
  have hh : st.Head .transforms l.patchesOff (5 * j + 2) := .patch (hlok.slot hj).1 (hlok.slot hj).2
  constructor
  · intro hat htorn
    exact (addTransform_torn h hi hl hj htorn).1 (hat ((h.addElem_spends hh mtch replace).full htorn.2))
  · intro hun href
    unfold addTransform at href ⊢
    rw [addElem_refused h hle hh hun href]
    rfl

end Store

end CloudeLoader
