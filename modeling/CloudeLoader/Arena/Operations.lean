import CloudeLoader.Arena.Invariant

/-!
# The operations keep the invariant

One statement for each operation of the store: what it leaves behind when everything fits, what it leaves behind
when the growth of an array does not fit, and that `Store.Ok` holds afterwards in both cases.
-/

namespace CloudeLoader

open ByteMemory Nat

namespace Store

variable {st st' : Store} {b b' c i j n v w : Nat} {k : Kind}

/-! ### The map -/

structure AppendKeySpec (st : Store) (key : CString) (off : Nat) (st' : Store) : Prop where
  ok : st'.Ok
  blk : ∀ {b x}, st.blk b = some x → st'.blk b = some x
  init : st'.init = st.init
  keysOff : st'.keysOff = st.keysOff
  valuesOff : st'.valuesOff = st.valuesOff
  count : st'.count = st.count + 1
  capacity : st'.capacity = st.capacity
  word : st'.word = ((st.setWord st.keysOff st.count off).clearHead st.valuesOff (3 * st.count)).word
  str : ∀ {off}, st.StrOk off → st'.str off = st.str off
  spends : st.Spends st' (strSize key)
  written : st'.refusals = st.refusals → off ≠ 0 ∧ st'.str off = key
  refused : st'.refusals ≠ st.refusals → off = 0

theorem Ok.append (h : st.Ok) (hlt : st.count < st.capacity) (key : CString) :
    ∃ off st', st.append key = (st', st.count) ∧ st.AppendKeySpec key off st' := by
  obtain ⟨st1, off, e, hs⟩ := h.strdup key
  obtain ⟨hko, hvo, hcnt, hcap⟩ := hs.map
  have h1 : st1.Ok := hs.ok
  have h2 := h1.setKey (v := off) (le_refl _)
  have h3 := h2.clearHead (.list h2.values (show st1.count < st1.capacity by omega))
  have hwrt : st1.refusals = st.refusals → off ≠ 0 ∧ st1.str off = key :=
    fun hr => ⟨(hs.written hr).1, (hs.written hr).2.1⟩
  refine ⟨off, { (st1.setWord st1.keysOff st1.count off).clearHead st1.valuesOff (3 * st1.count) with
    count := st1.count + 1 }, ?_, ⟨h3.blocks.congr rfl rfl rfl, h3.keys, h3.values, ?_, ?_, h3.elems,
    fun hh => h3.heads (hh.mono (by exact ⟨fun hb => hb, fun _ => le_refl _⟩))⟩, hs.keeps.blk, hs.init, hko, hvo,
    congrArg (· + 1) hcnt, hcap, ?_, hs.keeps.str, hs.spends.congr rfl rfl, hwrt, hs.refused⟩
  · simp only [Store.append, e, ← hcnt]
    rfl
  · show st1.count + 1 ≤ st1.capacity
    omega
  · intro i hi
    have hi : i < st1.count + 1 := hi
    show st1.StrOk (((st1.setWord st1.keysOff st1.count off).clearHead st1.valuesOff (3 * st1.count)).word st1.keysOff i)
    rw [word_clearHead, if_neg fun hc => ne_of_kind h1.keys h1.values (by decide) hc.1]
    by_cases he : i = st1.count
    · simp only [Store.setWord, he, and_self, ↓reduceIte]
      exact hs.strOk
    · simp only [Store.setWord, he, and_false, ↓reduceIte]
      exact h1.keyStr (by omega)
  · simp only [Store.clearHead, Store.setWord, hs.word, hko, hvo, hcnt]

structure GrowSpec (st st' : Store) : Prop where
  ok : st'.Ok
  keeps : st.Keeps st'
  count : st'.count = st.count
  capacity : st'.capacity = st.capacity * 2
  key : ∀ {i}, i < st.capacity → st'.word st'.keysOff i = st.word st.keysOff i
  list : ∀ {i}, i < st.capacity → st'.listAt st'.valuesOff i = st.listAt st.valuesOff i
  spends : st.Spends st' (mapSize st.capacity)
  refusals : st'.refusals = st.refusals
  init : st'.init = st.init

/-- A change of the map alone: the arrays of patches and transforms stay as they are. -/
private theorem Ok.of_map (hle : st.Le st') (hinit : st'.init = st.init)
    (helem : ∀ {b k c j}, st.blk b = some (k, c) → k.IsArray → j < st.init b → st.ElemOk k b j)
    (hhead : ∀ {k b w}, st.Head k b w → st.HeadOk k b w) (hb : st'.BlocksOk)
    (hkeys : st'.blk st'.keysOff = some (.keys, st'.capacity)) (hvalues : st'.blk st'.valuesOff = some (.values, st'.capacity))
    (hcount : st'.count ≤ st'.capacity) (hkey : ∀ {i}, i < st'.count → st'.StrOk (st'.word st'.keysOff i))
    (harr : ∀ {b k c}, st'.blk b = some (k, c) → k.IsArray → st.blk b = some (k, c) ∧ ∀ w, st'.word b w = st.word b w)
    (hlist : ∀ {b c i}, st'.blk b = some (.values, c) → i < c → st'.ListOk (st'.listAt b i)) : st'.Ok := by
  refine ⟨hb, hkeys, hvalues, hcount, hkey, ?_, ?_⟩
  · intro b k c j hb hk hj
    obtain ⟨hb, hword⟩ := harr hb hk
    exact (helem hb hk (hinit ▸ hj)).mono hle hword
  · intro k b w hh
    cases hh with
    | list hb hi => exact hlist hb hi
    | patch hb hj =>
      obtain ⟨hb, hword⟩ := harr hb (.inl rfl)
      exact (hhead (.patch hb (hinit ▸ hj))).mono hle hword

private theorem Ok.moveMap (h : st.Ok) {nk nv} (hk : st.Keeps st') (hb : st'.BlocksOk) (hmap : st.SameMap st')
    (hinit : st'.init = st.init) (hs : st.Spends st' (mapSize st.capacity)) (hr : st'.refusals = st.refusals)
    (hc : c = st.capacity * 2)
    (hnk : st'.blk nk = some (.keys, c)) (hnv : st'.blk nv = some (.values, c)) (hnk0 : st.blk nk = none)
    (hnv0 : st.blk nv = none) (hcas : ∀ {b x}, st'.blk b = some x → b = nk ∨ b = nv ∨ st.blk b = some x) :
    st.GrowSpec (st'.moveMap nk nv c) := by
  obtain ⟨hko, hvo, hcn, hcp⟩ := hmap
  have hne : nk ≠ nv := ne_of_kind hnk hnv (by decide)
  have hold : ∀ {b x}, st.blk b = some x → b ≠ nk ∧ b ≠ nv := by
    intro b x hb
    constructor
    · rintro rfl
      cases hnk0.symm.trans hb
    · rintro rfl
      cases hnv0.symm.trans hb
  have hnkv : nk ≠ st'.valuesOff := by
    rw [hvo]
    exact (hold h.values).1.symm
  have hle : st.Le (st'.moveMap nk nv c) := ⟨hk.blk, fun b => le_of_eq (congrFun hinit b).symm⟩
  have hword : ∀ {b x}, st.blk b = some x → ∀ w, (st'.moveMap nk nv c).word b w = st.word b w := by
    intro b x hb w
    obtain ⟨h1, h2⟩ := hold hb
    rw [word_moveMap _ hne hnkv]
    simp only [h1, h2, false_and, ↓reduceIte]
    exact hk.word hb w
  have hkey : ∀ {i}, i < st.capacity → (st'.moveMap nk nv c).word nk i = st.word st.keysOff i := by
    intro i hi
    rw [word_moveMap _ hne hnkv, hcp, if_pos ⟨rfl, hi⟩, hko]
    exact hk.word h.keys i
  have hlist : ∀ {i}, i < st.capacity → (st'.moveMap nk nv c).listAt nv i = st.listAt st.valuesOff i := by
    intro i hi
    rw [listAt_moveMap _ hne hnkv (by omega), hcp, if_pos hi, hvo]
    simp only [listAt, hk.word h.values]
  refine ⟨.of_map hle hinit h.elems h.heads (hb.congr rfl rfl rfl) hnk hnv ?_ ?_ ?_ ?_, ⟨hk.blk, hword, hk.str, hk.init⟩,
    hcn, hc, hkey, hlist, hs.congr rfl rfl, hr, hinit⟩
  · show st'.count ≤ c
    have := h.count_le
    omega
  · intro i hi
    have hi : i < st'.count := hi
    have := h.count_le
    show (st'.moveMap nk nv c).StrOk ((st'.moveMap nk nv c).word nk i)
    rw [hkey (by omega)]
    exact (h.keyStr (by omega)).mono hle
  · intro b k c' hb hk'
    rcases hcas hb with rfl | rfl | hb'
    · obtain rfl := (blk_unique hnk hb).1
      exact absurd hk' (by decide)
    · obtain rfl := (blk_unique hnv hb).1
      exact absurd hk' (by decide)
    · exact ⟨hb', hword hb'⟩
  · intro b c' i hb hi
    rcases hcas hb with rfl | rfl | hb'
    · exact absurd rfl (ne_of_kind hb hnk (by decide))
    · have hb : st'.blk b = some (.values, c') := hb
      have hcc := (blk_unique hnv hb).2
      by_cases hlt : i < st.capacity
      · rw [hlist hlt]
        exact (h.lists h.values hlt).mono hle
      · rw [listAt_moveMap _ hne hnkv (by omega), if_neg (by omega)]
        exact .inl ⟨rfl, rfl, rfl⟩
    · exact (h.heads (.list hb' hi)).mono hle (hword hb')

structure RefuseSpec (st st' : Store) : Prop where
  ok : st'.Ok
  keeps : st.Keeps st'
  map : st.SameMap st'
  full : shmIpcSize < st.used + mapSize st.capacity
  refused : st.refusals < st'.refusals
  init : st'.init = st.init

theorem Ok.grow (h : st.Ok) :
    (∃ st', st.grow = (st', false) ∧ st.RefuseSpec st') ∨ ∃ st', st.grow = (st', true) ∧ st.GrowSpec st' := by
  have hcap := h.blocks.pos h.keys
  have hsize : mapSize st.capacity = align8 (Kind.keys.stride * (st.capacity * 2)) +
      align8 (Kind.values.stride * (st.capacity * 2)) := rfl
  rcases st.alloc_cases .keys (st.capacity * 2) with ⟨hlt, e⟩ | ⟨hle, e⟩
  · -- the array of values is larger, so it does not fit either
    have hv : st.refuse.alloc .values (st.capacity * 2) = (st.refuse.refuse, 0) := by
      rcases st.refuse.alloc_cases .values (st.capacity * 2) with ⟨-, e'⟩ | ⟨hle, -⟩
      · exact e'
      · have hle : st.used + align8 (Kind.values.stride * (st.capacity * 2)) ≤ shmIpcSize := hle
        simp only [Kind.stride, align8] at hlt hle
        omega
    refine .inl ⟨st.refuse.refuse, ?_, h.refuse.refuse, keeps_refuse.trans keeps_refuse, ⟨rfl, rfl, rfl, rfl⟩,
      by omega, Nat.lt_add_of_pos_right (show 0 < 2 by omega), rfl⟩
    simp [Store.grow, e, hv]
  · have h1 : (st.withBlock .keys (st.capacity * 2)).Ok := h.withBlock (by decide) (by omega)
    have hk1 := h.blocks.keeps_withBlock (k := .keys) (c := st.capacity * 2)
    have hu1 : (st.withBlock .keys (st.capacity * 2)).used = st.used + align8 (Kind.keys.stride * (st.capacity * 2)) := rfl
    rcases (st.withBlock .keys (st.capacity * 2)).alloc_cases .values (st.capacity * 2) with ⟨hlt', e'⟩ | ⟨hle', e'⟩
    · refine .inl ⟨_, ?_, h1.refuse, hk1.trans keeps_refuse, ⟨rfl, rfl, rfl, rfl⟩, by omega, Nat.lt_succ_self _, rfl⟩
      simp [Store.grow, e, e']
    · have hk2 := hk1.trans (h1.blocks.keeps_withBlock (k := .values) (c := st.capacity * 2))
      have hb2 := h1.blocks.withBlock (k := .values) (c := st.capacity * 2) (by omega)
      have h0 := Nat.ne_of_gt h.blocks.used_pos
      have h0' := Nat.ne_of_gt h1.blocks.used_pos
      have hspn := (spends_withBlock hle).trans (spends_withBlock hle')
      refine .inr ⟨_, by simp [Store.grow, e, e', h0, h0']; rfl, h.moveMap hk2 hb2 ⟨rfl, rfl, rfl, rfl⟩ rfl hspn rfl
        rfl ?_ ?_ (h.blocks.fresh (Nat.le_refl _)) (h.blocks.fresh (Nat.le_add_right _ _)) ?_⟩
      · refine h1.blocks.le_withBlock.blk ?_
        rw [blk_withBlock, if_pos rfl]
      · rw [blk_withBlock]
        exact if_pos rfl
      · intro b x hb
        rw [blk_withBlock, blk_withBlock] at hb
        split_ifs at hb with hv hk
        · exact .inr (.inl hv)
        · exact .inl hk
        · exact .inr (.inr hb)

theorem index_some {key} (h : st.index key = some i) : i < st.count ∧ st.str (st.word st.keysOff i) = key := by
  have hmem := List.mem_of_find?_eq_some h
  have hkey := List.find?_some h
  exact ⟨List.mem_range.1 hmem, by simpa using hkey⟩

theorem index_none {key} (h : st.index key = none) (hi : i < st.count) : st.str (st.word st.keysOff i) ≠ key := by
  have := List.find?_eq_none.1 h i (List.mem_range.2 hi)
  simpa using this

inductive KeyRoom (st : Store) : Store → Prop
  | fits (h : st.count < st.capacity) : KeyRoom st st
  | moved {st1 : Store} (h : st.capacity ≤ st.count) (hg : st.grow = (st1, true)) (hs : st.GrowSpec st1) : KeyRoom st st1

theorem addKey_cases (h : st.Ok) {key} (hnone : st.index key = none) :
    (∃ st', st.capacity ≤ st.count ∧ st.grow = (st', false) ∧ st.RefuseSpec st' ∧ st.addKey key = (st', none)) ∨
    ∃ st1, st.KeyRoom st1 ∧ st.addKey key = ((st1.append key).1, some (st1.append key).2) := by
  by_cases hfull : st.capacity ≤ st.count
  · rcases h.grow with ⟨st', e, hs⟩ | ⟨st1, e, hs⟩
    · refine .inl ⟨st', hfull, e, hs, ?_⟩
      simp [addKey, hnone, hfull, e]
    · refine .inr ⟨st1, .moved hfull e hs, ?_⟩
      simp [addKey, hnone, hfull, e]
  · refine .inr ⟨st, .fits (Nat.lt_of_not_le hfull), ?_⟩
    simp [addKey, hnone, hfull]

section

variable (hr : st.KeyRoom st')

include hr

theorem KeyRoom.ok (h : st.Ok) : st'.Ok := by
  cases hr with
  | fits => exact h
  | moved _ _ hs => exact hs.ok

theorem KeyRoom.keeps : st.Keeps st' := by
  cases hr with
  | fits => exact Keeps.refl st
  | moved _ _ hs => exact hs.keeps

theorem KeyRoom.count : st'.count = st.count := by
  cases hr with
  | fits => rfl
  | moved _ _ hs => exact hs.count

theorem KeyRoom.refusals : st'.refusals = st.refusals := by
  cases hr with
  | fits => rfl
  | moved _ _ hs => exact hs.refusals

theorem KeyRoom.init : st'.init = st.init := by
  cases hr with
  | fits => rfl
  | moved _ _ hs => exact hs.init

theorem KeyRoom.key (h : st.Ok) (hi : i < st.count) :
    st'.word st'.keysOff i = st.word st.keysOff i := by
  cases hr with
  | fits => rfl
  | moved _ _ hs => exact hs.key (lt_of_lt_of_le hi h.count_le)

theorem KeyRoom.lt (h : st.Ok) : st'.count < st'.capacity := by
  cases hr with
  | fits hlt => exact hlt
  | moved _ _ hs =>
    have hcap := h.blocks.pos h.keys
    have hle := h.count_le
    rw [hs.count, hs.capacity]
    omega

end

theorem Ok.addKey (h : st.Ok) (key : CString) :
    (st.addKey key).1.Ok ∧ (∀ {b x}, st.blk b = some x → (st.addKey key).1.blk b = some x) ∧
      (∀ {b x}, st.blk b = some x → (st.addKey key).1.init b = st.init b) ∧
      ∀ i, (st.addKey key).2 = some i → i < (st.addKey key).1.count := by
  cases hidx : st.index key with
  | some i =>
    have e : st.addKey key = (st, some i) := by simp [Store.addKey, hidx]
    rw [e]
    refine ⟨h, fun hb => hb, fun _ => rfl, ?_⟩
    intro i' hi'
    obtain rfl : i = i' := by simpa using hi'
    exact (index_some hidx).1
  | none =>
    rcases addKey_cases h hidx with ⟨st', -, -, hs, e⟩ | ⟨st1, hr, e⟩
    · rw [e]
      exact ⟨hs.ok, hs.keeps.blk, hs.keeps.init, fun _ hne => by simp at hne⟩
    · obtain ⟨off, st', e', hs⟩ := (hr.ok h).append (hr.lt h) key
      rw [e, e']
      refine ⟨hs.ok, fun hb => hs.blk (hr.keeps.blk hb), ?_, ?_⟩
      · intro b x hb
        rw [hs.init]
        exact hr.keeps.init hb
      · intro i hi
        obtain rfl : st1.count = i := by simpa using hi
        show st1.count < st'.count
        rw [hs.count]
        exact lt_succ_self _

theorem copyWords_zero {dst w src w'} : st.copyWords dst w src w' 0 = st := by
  unfold copyWords
  congr 1
  funext b i
  exact if_neg (by omega)

private def shiftedDown (st : Store) (i : Nat) : Store :=
  { (st.copyWords st.keysOff i st.keysOff (i + 1) (st.count - i - 1)).copyWords st.valuesOff (3 * i) st.valuesOff
      (3 * (i + 1)) (3 * (st.count - i - 1)) with count := st.count - 1 }

private theorem remove_eq {key} (hidx : st.index key = some i) : st.remove key = st.shiftedDown i := by
  by_cases hlt : i < st.count - 1
  · simp only [remove, hidx, hlt, ↓reduceIte]
    rfl
  · -- the last entry: nothing is moved
    have hn : st.count - i - 1 = 0 := by
      omega
    simp only [remove, hidx, hlt, ↓reduceIte, shiftedDown, hn, mul_zero, copyWords_zero]

structure RemoveSpec (st : Store) (i : Nat) (st' : Store) : Prop where
  ok : st'.Ok
  blk : st'.blk = st.blk
  init : st'.init = st.init
  str : st'.str = st.str
  keysOff : st'.keysOff = st.keysOff
  valuesOff : st'.valuesOff = st.valuesOff
  count : st'.count = st.count - 1
  used : st'.used = st.used
  refusals : st'.refusals = st.refusals
  key : ∀ {i'}, i' < st.count - 1 →
    st'.word st.keysOff i' = st.word st.keysOff (if i' < i then i' else i' + 1)
  list : ∀ {i'}, i' < st.count - 1 →
    st'.listAt st.valuesOff i' = st.listAt st.valuesOff (if i' < i then i' else i' + 1)
  rest : ∀ {b w}, b ≠ st.keysOff → b ≠ st.valuesOff → st'.word b w = st.word b w

theorem Ok.remove (h : st.Ok) {key} (hidx : st.index key = some i) : st.RemoveSpec i (st.remove key) := by
  rw [remove_eq hidx]
  have hne : st.keysOff ≠ st.valuesOff := ne_of_kind h.keys h.values (by decide)
  have hrest : ∀ {b w}, b ≠ st.keysOff → b ≠ st.valuesOff → (st.shiftedDown i).word b w = st.word b w := by
    intro b w hb hb'
    exact (word_copyWords_ne _ hb').trans (word_copyWords_ne _ hb)
  have hkey : ∀ {i'}, i' < st.count - 1 →
      (st.shiftedDown i).word st.keysOff i' = st.word st.keysOff (if i' < i then i' else i' + 1) := by
    intro i' hi'
    refine ((word_copyWords_ne _ hne).trans (word_shift _)).trans ?_
    by_cases hlt : i' < i
    · rw [if_neg (by omega), if_pos hlt]
    · rw [if_pos (by omega), if_neg hlt]
  have hlist : ∀ {i'}, (st.shiftedDown i).listAt st.valuesOff i' =
      st.listAt st.valuesOff (if i ≤ i' ∧ i' < st.count - 1 then i' + 1 else i') := by
    intro i'
    refine (listAt_shift _).trans ?_
    by_cases hin : i ≤ i' ∧ i' < st.count - 1
    · rw [if_pos (by omega), if_pos hin]
      simp only [listAt, word_copyWords_ne _ hne.symm]
    · rw [if_neg (by omega), if_neg hin]
      simp only [listAt, word_copyWords_ne _ hne.symm]
  have hle : st.Le (st.shiftedDown i) := ⟨fun hb => hb, fun _ => le_refl _⟩
  refine ⟨.of_map hle rfl h.elems h.heads (h.blocks.congr rfl rfl rfl) h.keys h.values ?_ ?_ ?_ ?_, rfl, rfl, rfl, rfl, rfl,
    rfl, rfl, rfl, hkey, ?_, hrest⟩
  · have := h.count_le
    show st.count - 1 ≤ st.capacity
    omega
  · intro i' hi'
    have hi' : i' < st.count - 1 := hi'
    show st.StrOk ((st.shiftedDown i).word st.keysOff i')
    rw [hkey hi']
    refine h.keyStr ?_
    split <;> omega
  · intro b k c hb hk
    have hb : st.blk b = some (k, c) := hb
    refine ⟨hb, fun w => hrest (ne_of_kind hb h.keys ?_) (ne_of_kind hb h.values ?_)⟩
    · rcases hk with rfl | rfl <;> decide
    · rcases hk with rfl | rfl <;> decide
  · intro b c i' hb hi'
    have hb : st.blk b = some (.values, c) := hb
    by_cases hbv : b = st.valuesOff
    · subst hbv
      have hc := (blk_unique h.values hb).2
      have := h.count_le
      rw [hlist]
      refine (h.lists h.values ?_).mono hle
      split <;> omega
    · exact (h.heads (.list hb hi')).mono hle fun w => hrest (ne_of_kind hb h.keys (by decide)) hbv
  · intro i' hi'
    rw [hlist]
    congr 1
    split <;> split <;> omega

theorem word_initMap_ne (h : b ≠ st.used) (h' : b ≠ st.used + align8 (Kind.keys.stride * 16)) :
    st.initMap.word b n = st.word b n := by
  simp [initMap, zeroWords, withBlock, h, h']

theorem Ok.initMap (hblc : st.BlocksOk)
    (helem : ∀ {b k c j}, st.blk b = some (k, c) → k.IsArray → j < st.init b → st.ElemOk k b j)
    (hhead : ∀ {k b w}, st.Head k b w → st.HeadOk k b w) : st.initMap.Ok := by
  have hb0 : BlocksOk { st with count := 0, capacity := 16 } := hblc.congr rfl rfl rfl
  have hb1 := hb0.withBlock (k := .keys) (c := 16) (by omega)
  have hb2 := hb1.withBlock (k := .values) (c := 16) (by omega)
  have hle : st.Le st.initMap := ⟨fun hb => hb1.le_withBlock.blk (hb0.le_withBlock.blk hb), fun _ => le_refl _⟩
  have hcas : ∀ {b x}, st.initMap.blk b = some x → (b = st.used + align8 (Kind.keys.stride * 16) ∧ x = (.values, 16)) ∨
      (b = st.used ∧ x = (.keys, 16)) ∨ st.blk b = some x := by
    intro b x hb
    have hb : ((Store.withBlock { st with count := 0, capacity := 16 } .keys 16).withBlock .values 16).blk b = some x := hb
    rw [blk_withBlock, blk_withBlock] at hb
    split_ifs at hb with hv hk
    · exact .inl ⟨hv, by injection hb with e; exact e.symm⟩
    · exact .inr (.inl ⟨hk, by injection hb with e; exact e.symm⟩)
    · exact .inr (.inr hb)
  have hword : ∀ {b x}, st.blk b = some x → ∀ n, st.initMap.word b n = st.word b n := by
    intro b x hb n
    exact word_initMap_ne (hblc.ne_used hb) (hb1.ne_used (hb0.le_withBlock.blk hb))
  refine .of_map hle rfl helem hhead (hb2.congr rfl rfl rfl) ?_ ?_ (zero_le _) ?_ ?_ ?_
  · refine hb1.le_withBlock.blk ?_
    exact if_pos rfl
  · show ((Store.withBlock { st with count := 0, capacity := 16 } .keys 16).withBlock .values 16).blk _ = _
    exact if_pos rfl
  · intro i hi
    exact absurd hi (not_lt_zero i)
  · intro b k c hb hk
    rcases hcas hb with ⟨-, e⟩ | ⟨-, e⟩ | hb'
    · injection e with e
      exact absurd (e ▸ hk) (by decide)
    · injection e with e
      exact absurd (e ▸ hk) (by decide)
    · exact ⟨hb', hword hb'⟩
  · intro b c i hb hi
    rcases hcas hb with ⟨rfl, e⟩ | ⟨-, e⟩ | hb'
    · have hc : c = 16 := by
        injection e
      have hzero : ∀ n, n < 48 → st.initMap.word (st.used + align8 (Kind.keys.stride * 16)) n = 0 := by
        intro n hn
        simp [Store.initMap, zeroWords, hn]
      exact .inl ⟨hzero _ (by omega), hzero _ (by omega), hzero _ (by omega)⟩
    · simp at e
    · exact (hhead (.list hb' hi)).mono hle (hword hb')

theorem Le.trans {st''} (h : st.Le st') (h' : st'.Le st'') : st.Le st'' :=
  ⟨fun hb => h'.blk (h.blk hb), fun b => le_trans (h.init b) (h'.init b)⟩

/-! ### Moving an array -/

/-- The new array, before its header says so. -/
def copiedArray (st : Store) (k : Kind) (b w : Nat) : Store :=
  (st.withBlock k (nextCapacity (st.word b (w + 2)))).copyWords st.used 0 (st.word b w) 0 (k.words * st.word b (w + 2))

def movedArray (st : Store) (k : Kind) (b w : Nat) : Store :=
  (((st.copiedArray k b w).setWord b w st.used).setWord b (w + 2) (nextCapacity (st.word b (w + 2)))).markInit st.used
    (st.word b (w + 2))

theorem growArray_cases (h : st.Ok) (hh : st.Head k b w) :
    (shmIpcSize < st.used + arraySize k (st.word b (w + 2)) ∧ st.growArray k b w = (st.refuse, false)) ∨
    (st.used + arraySize k (st.word b (w + 2)) ≤ shmIpcSize ∧ st.growArray k b w = (st.movedArray k b w, true)) := by
  rcases st.alloc_cases k (nextCapacity (st.word b (w + 2))) with ⟨hlt, e⟩ | ⟨hle, e⟩
  · refine .inl ⟨hlt, ?_⟩
    simp [growArray, e]
  · refine .inr ⟨hle, ?_⟩
    have h0 := ne_of_gt h.blocks.used_pos
    by_cases hoff : st.word b w = 0
    · have hcap : st.word b (w + 2) = 0 := by
        rcases h.heads hh with ⟨-, -, hcap⟩ | ⟨hblk, -⟩
        · exact hcap
        · rw [hoff, h.blocks.zero] at hblk
          simp at hblk
      rw [hcap] at e
      simp only [growArray, e, h0, ↓reduceIte, hoff, ne_eq, not_true_eq_false, movedArray,
        copiedArray, hcap, mul_zero, copyWords_zero]
    · simp only [growArray, e, h0, ↓reduceIte, hoff, ne_eq, not_false_eq_true, movedArray, copiedArray]

theorem word_movedArray (hu : b' ≠ st.used) : (st.movedArray k b w).word b' v =
    if b' = b ∧ v = w + 2 then nextCapacity (st.word b (w + 2)) else if b' = b ∧ v = w then st.used else st.word b' v := by
  simp only [movedArray, copiedArray, markInit, word_setWord, word_copyWords_ne _ hu]
  rfl

theorem word_movedArray_ne (h : b' ≠ b) (hu : b' ≠ st.used) : (st.movedArray k b w).word b' v = st.word b' v := by
  simp [word_movedArray hu, h]

theorem word_copiedArray {x} (hj : j < st.word b (w + 2)) (hx : x < k.words) :
    (st.copiedArray k b w).word st.used (k.words * j + x) = st.word (st.word b w) (k.words * j + x) := by
  have hle := mul_le_mul_left k.words hj
  rw [mul_succ] at hle
  refine (if_pos ⟨rfl, zero_le _, by omega⟩).trans ?_
  rw [Nat.zero_add, Nat.sub_zero]
  rfl

theorem word_movedArray_used {x} (hb : b ≠ st.used) (hj : j < st.word b (w + 2)) (hx : x < k.words) :
    (st.movedArray k b w).word st.used (k.words * j + x) = st.word (st.word b w) (k.words * j + x) := by
  simp only [movedArray, markInit, word_setWord, hb.symm, false_and, if_false]
  exact word_copiedArray hj hx

theorem patchAt_movedArray_used (hb : b ≠ st.used) (hj : j < st.word b (w + 2)) :
    (st.movedArray .patches b w).patchAt st.used j = st.patchAt (st.word b w) j := by
  have hword : ∀ {x}, x < 5 → (st.movedArray .patches b w).word st.used (5 * j + x) = st.word (st.word b w) (5 * j + x) :=
    fun hx => word_movedArray_used (k := .patches) hb hj hx
  unfold patchAt
  congr 1
  exacts [hword (x := 0) (by omega), hword (by omega), hword (by omega), hword (by omega), hword (by omega)]

theorem transformAt_movedArray_used (hb : b ≠ st.used) (hn : n < st.word b (w + 2)) :
    (st.movedArray .transforms b w).transformAt st.used n = st.transformAt (st.word b w) n := by
  have hword : ∀ {x}, x < 2 → (st.movedArray .transforms b w).word st.used (2 * n + x) = st.word (st.word b w) (2 * n + x) :=
    fun hx => word_movedArray_used (k := .transforms) hb hn hx
  unfold transformAt
  congr 1
  exacts [hword (x := 0) (by omega), hword (by omega)]

theorem listAt_movedArray (hu : b' ≠ st.used) {i'} : (st.movedArray .patches b (3 * i)).listAt b' i' =
    if b' = b ∧ i' = i then { st.listAt b i with
      patchesOff := st.used, patchCapacity := nextCapacity (st.listAt b i).patchCapacity }
    else st.listAt b' i' := by
  simp only [listAt, word_movedArray hu]
  by_cases h : b' = b ∧ i' = i
  · obtain ⟨rfl, rfl⟩ := h
    simp
  · rw [if_neg h]
    congr 1 <;> rw [if_neg (by omega), if_neg (by omega)]

theorem patchAt_movedArray (hu : b' ≠ st.used) {j'} : (st.movedArray .transforms b (5 * j + 2)).patchAt b' j' =
    if b' = b ∧ j' = j then { st.patchAt b j with
      transformsOff := st.used, transformCapacity := nextCapacity (st.patchAt b j).transformCapacity }
    else st.patchAt b' j' := by
  simp only [patchAt, word_movedArray hu]
  by_cases h : b' = b ∧ j' = j
  · obtain ⟨rfl, rfl⟩ := h
    simp
    omega
  · rw [if_neg h]
    congr 1 <;> rw [if_neg (by omega), if_neg (by omega)]

theorem Head.ne_used (hh : st.Head k b w) (h : st.Ok) : b ≠ st.used := by
  obtain ⟨k', c, hb, -⟩ := hh.exists_blk h.blocks
  exact h.blocks.ne_used hb

theorem Head.ne_off (hh : st.Head k b w) (h : st.Ok) (hlt : st.word b (w + 1) < st.word b (w + 2)) : b ≠ st.word b w := by
  obtain ⟨k', c, hb, -, hne, -⟩ := hh.exists_blk h.blocks
  exact ne_of_kind hb ((h.heads hh).blk hlt) hne.symm

theorem le_movedArray (h : st.Ok) : st.Le (st.movedArray k b w) :=
  ⟨h.blocks.le_withBlock.blk, fun b => le_markInit.init b⟩

private theorem Ok.copiedArray (h : st.Ok) (hk : k.IsArray) : (st.copiedArray k b w).Ok := by
  have hc : 0 < nextCapacity (st.word b (w + 2)) := zero_lt_of_lt (nextCapacity_gt _)
  have h1 := h.withBlock (k := k) (by rcases hk with rfl | rfl <;> decide) hc
  have hb := st.blk_withBlock (k := k) (c := nextCapacity (st.word b (w + 2))) (b := st.used)
  rw [if_pos rfl] at hb
  have hinit : st.init st.used = 0 := h.blocks.init_none (h.blocks.fresh (le_refl _))
  refine h1.write rfl hb (word_copyWords_ne _) ?_ (fun _ j (hj : j < st.init st.used) => by omega) fun hh => ?_
  · rintro rfl
    exact absurd hk (by decide)
  · cases hh with
    | list hb' =>
      obtain rfl := (blk_unique hb hb').1
      exact absurd hk (by decide)
    | @patch _ _ j hb' hj =>
      have hj : j < st.init st.used := hj
      omega

theorem Ok.movedArray (h : st.Ok) (hh : st.Head k b w) (hfull : st.word b (w + 2) ≤ st.word b (w + 1)) :
    (st.movedArray k b w).Ok := by
  have harr := h.heads hh
  have hle : st.Le (st.copiedArray k b w) := ⟨h.blocks.le_withBlock.blk, fun _ => le_refl _⟩
  have hnew : (st.copiedArray k b w).blk st.used = some (k, nextCapacity (st.word b (w + 2))) :=
    st.blk_withBlock.trans (if_pos rfl)
  -- the array was full, so all of the new array's copied part is written
  have hcnt := le_antisymm (harr.count_le h.blocks) hfull
  have hslot : ∀ {j}, j < st.word b (w + 2) → st.blk (st.word b w) = some (k, st.word b (w + 2)) ∧ j < st.init (st.word b w) :=
    fun hj => harr.slot (by omega)
  have h2 := (h.copiedArray (b := b) (w := w) hh.isArray).markInit hnew (le_of_lt (nextCapacity_gt _))
    (fun hk j hj => ?_) (fun hk j hj => ?_)
  · have h3 : Store.Ok ((((st.copiedArray k b w).markInit st.used (st.word b (w + 2))).setWord b w st.used).setWord b (w + 2)
        (nextCapacity (st.word b (w + 2)))) := by
      refine h2.setHead (hh.mono (hle.trans le_markInit)) rfl (fun hfar => ?_) ?_
      · rw [word_setWord, word_setWord, if_neg (by omega), if_neg (by omega)]
      · simp only [word_setWord, true_and, left_eq_add, OfNat.ofNat_ne_zero, if_false, if_true]
        refine .inr ⟨hnew, ?_⟩
        rw [init_markInit, if_pos rfl, if_neg (by omega), if_neg (by omega)]
        refine le_trans (le_of_eq ?_) (le_max_right ..)
        exact (word_copyWords_ne _ (hh.ne_used h)).trans hcnt
    exact h3
  · obtain ⟨hblk, hinit⟩ := hslot hj
    intro x hx
    rw [word_copiedArray hj (lt_of_lt_of_le hx hk.two_le)]
    exact (h.elems hblk hk hinit x hx).mono hle
  · subst hk
    obtain ⟨hblk, hinit⟩ := hslot hj
    have hold : st.HeadOk .transforms (st.word b w) (5 * j + 2) := h.heads (.patch hblk hinit)
    have hoff := word_copiedArray (k := .patches) (x := 2) hj (by decide)
    have hcount := word_copiedArray (k := .patches) (x := 3) hj (by decide)
    have hcap := word_copiedArray (k := .patches) (x := 4) hj (by decide)
    rw [words_patches] at hoff hcount hcap
    unfold HeadOk
    rw [hoff, hcount, hcap]
    exact ArrayOk.mono hle hold

/-! ### Appending an element -/

structure AppendSpec (st : Store) (k : Kind) (b w : Nat) (s s' : CString) (o o' : Nat) (st' : Store) : Prop where
  ok : st'.Ok
  blk : ∀ {b x}, st.blk b = some x → st'.blk b = some x
  init : st'.init = (st.markInit (st.word b w) (st.word b (w + 1) + 1)).init
  map : st.SameMap st'
  word : st'.word = ((st.setElem k (st.word b w) (st.word b (w + 1)) o o').setWord b (w + 1) (st.word b (w + 1) + 1)).word
  str : ∀ {off}, st.StrOk off → st'.str off = st.str off
  spends : st.Spends st' (strSize s + strSize s')
  written : st'.refusals = st.refusals → (o ≠ 0 ∧ st'.str o = s) ∧ (o' ≠ 0 ∧ st'.str o' = s')
  refused : st'.refusals ≠ st.refusals → o = 0 ∨ o' = 0

private theorem StrdupSpec.written_both {st1 st2 s s' off off'}
    (h1 : st.StrdupSpec st1 off s) (h2 : st1.StrdupSpec st2 off' s') (hr : st2.refusals = st.refusals) :
    (off ≠ 0 ∧ st2.str off = s) ∧ (off' ≠ 0 ∧ st2.str off' = s') := by
  have hm1 := h1.spends.mono
  have hm2 := h2.spends.mono
  obtain ⟨hne, hs, -⟩ := h1.written (by omega)
  obtain ⟨hne', hs', -⟩ := h2.written (by omega)
  exact ⟨⟨hne, by rw [h2.keeps.str h1.strOk, hs]⟩, hne', hs'⟩

private theorem StrdupSpec.refused_one {st1 st2 s s' off off'}
    (h1 : st.StrdupSpec st1 off s) (h2 : st1.StrdupSpec st2 off' s') (hr : st2.refusals ≠ st.refusals) :
    off = 0 ∨ off' = 0 := by
  by_cases hr1 : st1.refusals = st.refusals
  · exact .inr (h2.refused fun he => hr (he.trans hr1))
  · exact .inl (h1.refused hr1)

theorem SameMap.trans {st''} (h : st.SameMap st') (h' : st'.SameMap st'') : st.SameMap st'' :=
  ⟨h'.1.trans h.1, h'.2.1.trans h.2.1, h'.2.2.1.trans h.2.2.1, h'.2.2.2.trans h.2.2.2⟩

theorem Ok.appendElem (h : st.Ok) (hh : st.Head k b w) (hlt : st.word b (w + 1) < st.word b (w + 2)) (s s' : CString) :
    ∃ o o', st.AppendSpec k b w s s' o o' (st.appendElem k b w s s') := by
  obtain ⟨hblk, hcnt⟩ := (h.heads hh).present (.inr (by omega))
  have hoff := hh.ne_off h hlt
  obtain ⟨st1, o, e1, hs1⟩ := h.strdup s
  obtain ⟨st2, o', e2, hs2⟩ := hs1.ok.strdup s'
  rw [appendElem_eq _ _ _ hoff, e1]
  simp only [e2]
  have hk := hs1.keeps.trans hs2.keeps
  have hinit : st2.init = st.init := hs2.init.trans hs1.init
  have hword : st2.word = st.word := hs2.word.trans hs1.word
  have ho := hs2.keeps.strOk hs1.strOk
  have h3 := hs2.ok.setElem (n := st.word b (w + 1)) (hk.blk hblk) hh.isArray ho hs2.strOk
  -- the elements before the new one were written
  have hold : ∀ {j}, j < st.word b (w + 1) + 1 → j ≠ st.word b (w + 1) → j < st2.init (st.word b w) := by
    intro j hj he
    rw [hinit]
    omega
  have hwrt : st2.refusals = st.refusals → (o ≠ 0 ∧ st2.str o = s) ∧ (o' ≠ 0 ∧ st2.str o' = s') := hs1.written_both hs2
  have href : st2.refusals ≠ st.refusals → o = 0 ∨ o' = 0 := hs1.refused_one hs2
  have h4 := h3.markInit (n := st.word b (w + 1) + 1) (hk.blk hblk) hlt (fun hka j hj => ?_) (fun hkp j hj => ?_)
  · refine ⟨o, o', ?_, hk.blk, ?_, hs1.map.trans hs2.map, ?_, hk.str, (hs1.spends.trans hs2.spends).congr rfl rfl,
      hwrt, href⟩
    · refine h4.setHead (k := k) (b := b) (w := w) ?_ rfl (fun hfar => ?_) ?_
      · have hle : st.Le (st2.setElem k (st.word b w) (st.word b (w + 1)) o o') :=
          ⟨hk.blk, fun b => le_of_eq (congrFun hinit b).symm⟩
        exact hh.mono (hle.trans le_markInit)
      · show ite _ _ _ = _
        exact if_neg (by omega)
      · have hself : ∀ v, (st2.setElem k (st.word b w) (st.word b (w + 1)) o o').word b v = st.word b v :=
          fun v => (word_setElem_ne _ hoff).trans (by rw [hword])
        simp only [Store.markInit, word_setWord, hself, true_and, left_eq_add, one_ne_zero, if_false, if_true,
          add_left_cancel_iff, OfNat.ofNat_ne_one]
        refine .inr ⟨hk.blk hblk, ?_⟩
        exact le_trans (le_max_right ..) (le_of_eq (init_markInit.trans (if_pos rfl)).symm)
    · simp only [Store.setWord, Store.setElem, Store.markInit, hinit]
    · simp only [Store.setWord, Store.setElem, Store.markInit, hword]
  · by_cases he : j = st.word b (w + 1)
    · subst he
      exact elemOk_setElem hka ho hs2.strOk
    · exact h3.elems (hk.blk hblk) hka (hold hj he)
  · subst hkp
    by_cases he : j = st.word b (w + 1)
    · subst he
      exact headOk_setElem
    · exact h3.heads (.patch (hk.blk hblk) (hold hj he))

theorem AppendSpec.word_ne {s s' o o'} (hs : st.AppendSpec k b w s s' o o' st') (hb : b' ≠ b) (hoff : b' ≠ st.word b w) :
    st'.word b' v = st.word b' v := by
  rw [hs.word, word_setWord, if_neg fun hc => hb hc.1, word_setElem_ne _ hoff]

theorem AppendSpec.word_elem {s s' o o' x} (hs : st.AppendSpec k b w s s' o o' st') (hh : st.Head k b w)
    (hblk : st.blk (st.word b w) = some (k, n)) {k'} (hb : st.blk b' = some (k', c)) (hk : k'.IsArray) (hx : x < 2) :
    st'.word b' (k'.words * j + x) = if b' = st.word b w ∧ j = st.word b (w + 1) then if x = 0 then o else o'
      else st.word b' (k'.words * j + x) := by
  rw [hs.word, word_setWord, if_neg]
  · by_cases he : b' = st.word b w
    · subst he
      obtain ⟨rfl, -⟩ := blk_unique hblk hb
      rw [word_setElem _ hk (lt_of_lt_of_le hx hk.two_le)]
      congr 1
      split
      · rfl
      · exact if_pos (by omega)
    · rw [word_setElem_ne _ he, if_neg fun hc => he hc.1]
  · rintro ⟨rfl, he⟩
    have := hh.elem_far (j := j) hb hk hx
    omega

theorem AppendSpec.word_off {s s' o o'} (hs : st.AppendSpec k b w s s' o o' st') (hne : b ≠ st.word b w) :
    st'.word b w = st.word b w := by
  rw [hs.word, word_setWord, if_neg (by omega), word_setElem_ne _ hne]

/-! ### Whole calls -/

inductive Room (st : Store) (k : Kind) (b w : Nat) : Store → Prop
  | fits (h : st.word b (w + 1) < st.word b (w + 2)) : Room st k b w st
  | moved (h : st.word b (w + 2) ≤ st.word b (w + 1)) (hle : st.used + arraySize k (st.word b (w + 2)) ≤ shmIpcSize) :
      Room st k b w (st.movedArray k b w)

theorem arrayRoom_cases (h : st.Ok) (hh : st.Head k b w) :
    (st.word b (w + 2) ≤ st.word b (w + 1) ∧ shmIpcSize < st.used + arraySize k (st.word b (w + 2)) ∧
      st.arrayRoom k b w = (st.refuse, false)) ∨ ∃ st1, st.Room k b w st1 ∧ st.arrayRoom k b w = (st1, true) := by
  unfold arrayRoom
  by_cases hfull : st.word b (w + 2) ≤ st.word b (w + 1)
  · rw [if_pos hfull]
    rcases growArray_cases h hh with ⟨hlt, e⟩ | ⟨hle, e⟩
    · exact .inl ⟨hfull, hlt, e⟩
    · exact .inr ⟨_, .moved hfull hle, e⟩
  · rw [if_neg hfull]
    exact .inr ⟨st, .fits (Nat.lt_of_not_le hfull), rfl⟩

theorem addElem_cases (h : st.Ok) (hh : st.Head k b w) (s s' : CString) :
    (st.word b (w + 2) ≤ st.word b (w + 1) ∧ shmIpcSize < st.used + arraySize k (st.word b (w + 2)) ∧
      st.addElem k b w s s' = (st.refuse, false)) ∨
    ∃ st1, st.Room k b w st1 ∧ st.addElem k b w s s' = (st1.appendElem k b w s s', true) := by
  unfold addElem
  rcases arrayRoom_cases h hh with ⟨hfull, hlt, e⟩ | ⟨st1, hr, e⟩
  · exact .inl ⟨hfull, hlt, by rw [e]⟩
  · exact .inr ⟨st1, hr, by rw [e]⟩

section

variable (hr : st.Room k b w st')

include hr

theorem Room.ok (h : st.Ok) (hh : st.Head k b w) : st'.Ok := by
  cases hr with
  | fits => exact h
  | moved hfull => exact h.movedArray hh hfull

theorem Room.le (h : st.Ok) : st.Le st' := by
  cases hr with
  | fits => exact ⟨fun hb => hb, fun _ => le_refl _⟩
  | moved => exact le_movedArray h

theorem Room.map : st.SameMap st' := by
  cases hr with
  | fits => exact ⟨rfl, rfl, rfl, rfl⟩
  | moved => exact ⟨rfl, rfl, rfl, rfl⟩

theorem Room.refusals : st'.refusals = st.refusals := by
  cases hr with
  | fits => rfl
  | moved => rfl

theorem Room.word_ne (h : st.Ok) {x} (hb : st.blk b' = some x) (hne : b' ≠ b) : st'.word b' v = st.word b' v := by
  cases hr with
  | fits => rfl
  | moved => exact word_movedArray_ne hne (h.blocks.ne_used hb)

theorem Room.sizes (hu : b ≠ st.used) :
    st'.word b (w + 1) = st.word b (w + 1) ∧ st'.word b (w + 2) = grownCapacity (st.word b (w + 1)) (st.word b (w + 2)) := by
  unfold grownCapacity
  cases hr with
  | fits hlt => exact ⟨rfl, (if_pos hlt).symm⟩
  | moved hfull => simp [word_movedArray hu, not_lt.2 hfull]

theorem Room.lt (h : st.Ok) (hh : st.Head k b w) : st'.word b (w + 1) < st'.word b (w + 2) := by
  obtain ⟨hcnt, hcap⟩ := hr.sizes (hh.ne_used h)
  rw [hcnt, hcap, grownCapacity]
  split
  · assumption
  · exact lt_of_le_of_lt ((h.heads hh).count_le h.blocks) (nextCapacity_gt _)

end

theorem AppendSpec.le {s s' o o'} (h : st.AppendSpec k b w s s' o o' st') : st.Le st' where
  blk := h.blk
  init := by
    intro b
    rw [h.init]
    exact le_markInit.init b

theorem Room.append (hr : st.Room k b w st') (h : st.Ok) (hh : st.Head k b w) (s s' : CString) :
    ∃ o o', st'.AppendSpec k b w s s' o o' (st'.appendElem k b w s s') :=
  (hr.ok h hh).appendElem (hh.mono (hr.le h)) (hr.lt h hh) s s'

theorem Ok.addElem (h : st.Ok) (hh : st.Head k b w) (s s' : CString) :
    (st.addElem k b w s s').1.Ok ∧ st.Le (st.addElem k b w s s').1 := by
  rcases addElem_cases h hh s s' with ⟨-, -, e⟩ | ⟨st1, hr, e⟩
  · rw [e]
    exact ⟨h.refuse, ⟨fun hb => hb, fun _ => le_refl _⟩⟩
  · obtain ⟨_, _, hs⟩ := hr.append h hh s s'
    rw [e]
    exact ⟨hs.ok, (hr.le h).trans hs.le⟩

theorem Ok.addElem_spends (h : st.Ok) (hh : st.Head k b w) (s s' : CString) : st.Spends (st.addElem k b w s s').1
    (arrayGrowth k (st.word b (w + 1)) (st.word b (w + 2)) + (strSize s + strSize s')) := by
  rcases addElem_cases h hh s s' with ⟨hfull, hlt, e⟩ | ⟨st1, hr, e⟩
  · rw [e, arrayGrowth, if_neg (not_lt.2 hfull)]
    exact spends_of_refused (by omega) (lt_succ_self _)
  · obtain ⟨_, _, hs⟩ := hr.append h hh s s'
    rw [e]
    refine Spends.growth ?_ hs.spends
    cases hr with
    | fits hlt => exact .inl ⟨hlt, rfl⟩
    | moved hfull hfit => exact .inr ⟨hfull, (spends_withBlock hfit).congr rfl rfl⟩

theorem addPatch_fst (st : Store) (b i : Nat) (file find : CString) :
    (st.addPatch b i file find).1 = (st.addElem .patches b (3 * i) file find).1 := by
  unfold addPatch
  split
  · rename_i e
    rw [e]
  · rename_i e
    rw [e]

theorem addPatch_cases (h : st.Ok) (hh : st.Head .patches b (3 * i)) (file find : CString) :
    (st.word b (3 * i + 2) ≤ st.word b (3 * i + 1) ∧ shmIpcSize < st.used + arraySize .patches (st.word b (3 * i + 2)) ∧
      st.addPatch b i file find = (st.refuse, none)) ∨
    ∃ st1, st.Room .patches b (3 * i) st1 ∧ st.addPatch b i file find =
      (st1.appendElem .patches b (3 * i) file find, some ((st1.listAt b i).patchesOff, (st1.listAt b i).patchCount)) := by
  unfold addPatch
  rcases addElem_cases h hh file find with ⟨hfull, hlt, e⟩ | ⟨st1, hr, e⟩
  · exact .inl ⟨hfull, hlt, by rw [e]⟩
  · obtain ⟨_, _, hs⟩ := hr.append h hh file find
    have hoff := hs.word_off ((hh.mono (hr.le h)).ne_off (hr.ok h hh) (hr.lt h hh))
    refine .inr ⟨st1, hr, ?_⟩
    simp only [e, listAt, hoff, (hr.sizes (hh.ne_used h)).1]

theorem Ok.addPatch (h : st.Ok) (hb : st.blk b = some (.values, c)) (hi : i < c) (file find : CString) :
    (st.addPatch b i file find).1.Ok ∧ st.Le (st.addPatch b i file find).1 ∧
      ∀ b' j', (st.addPatch b i file find).2 = some (b', j') →
        (∃ c', (st.addPatch b i file find).1.blk b' = some (.patches, c')) ∧ j' < (st.addPatch b i file find).1.init b' := by
  have hh : st.Head .patches b (3 * i) := .list hb hi
  rcases addPatch_cases h hh file find with ⟨-, -, e⟩ | ⟨st1, hr, e⟩
  · rw [e]
    exact ⟨h.refuse, ⟨fun hb => hb, fun _ => le_refl _⟩, by simp⟩
  · obtain ⟨_, _, hs⟩ := hr.append h hh file find
    rw [e]
    refine ⟨hs.ok, (hr.le h).trans hs.le, fun b' j' hbj => ?_⟩
    injection hbj with hbj
    injection hbj with h1 h2
    subst h1 h2
    refine ⟨⟨_, hs.blk (((hr.ok h hh).heads (hh.mono (hr.le h))).blk (hr.lt h hh))⟩, ?_⟩
    show _ < Store.init _ (st1.word b (3 * i))
    rw [hs.init, init_markInit, if_pos rfl]
    exact lt_of_lt_of_le (lt_succ_self _) (le_max_right ..)

theorem Ok.addPatch_spends (h : st.Ok) (hb : st.blk b = some (.values, c)) (hi : i < c) (file find : CString) :
    st.Spends (st.addPatch b i file find).1
      (arrayGrowth .patches (st.listAt b i).patchCount (st.listAt b i).patchCapacity + (strSize file + strSize find)) := by
  rw [addPatch_fst]
  exact h.addElem_spends (.list hb hi) file find

theorem Ok.addTransform_spends (h : st.Ok) (hb : st.blk b = some (.patches, c)) (hj : j < st.init b)
    (mtch replace : CString) : st.Spends (st.addTransform b j mtch replace)
      (arrayGrowth .transforms (st.patchAt b j).transformCount (st.patchAt b j).transformCapacity +
        (strSize mtch + strSize replace)) :=
  h.addElem_spends (.patch hb hj) mtch replace

theorem Ok.addKey_spends (h : st.Ok) {key} (hnone : st.index key = none) :
    st.Spends (st.addKey key).1 (mapGrowth st.count st.capacity + strSize key) := by
  rcases addKey_cases h hnone with ⟨st', hfull, -, hs, e⟩ | ⟨st1, hr, e⟩
  · have hlt := hs.full
    rw [e, mapGrowth, if_neg (not_lt.2 hfull)]
    exact spends_of_refused (by omega) hs.refused
  · obtain ⟨_, st', e', hs⟩ := (hr.ok h).append (hr.lt h) key
    rw [e, e']
    refine Spends.growth ?_ hs.spends
    cases hr with
    | fits hlt => exact .inl ⟨hlt, rfl⟩
    | moved hfull _ hg => exact .inr ⟨hfull, hg.spends⟩

end Store

end CloudeLoader
