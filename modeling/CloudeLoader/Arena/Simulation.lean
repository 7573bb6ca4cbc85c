import CloudeLoader.Arena.Layout
import CloudeLoader.Arena.Operations

/-!
# The bytes follow the store

Each function of `state/shared_memory.cc` does on the bytes of the arena what the operation of the same name does on the
store it lays out (`Lay`).
-/

namespace CloudeLoader

open ByteMemory Arena Store Option Nat

variable {s : Arena} {st : Store} {b b' c i j w x : Nat} {k k' : Kind}

/-! ### Reading -/

theorem stride_eq_words (hk : k ≠ .str) : k.stride = 4 * k.words := by
  cases k with
  | str => exact absurd rfl hk
  | _ => rfl

theorem Lay.load_eq (h : Lay s st) {a} (hb : st.blk b = some (k, c)) (hk : k ≠ .str)
    (hw : 4 * w + 4 ≤ k.stride * c) (ha : a = b + 4 * w) : s.load a = st.word b w := by
  subst ha
  exact h.word hb hk hw

theorem Lay.elem_eq (h : Lay s st) (hb : st.blk b = some (k, c)) (hk : k ≠ .str) (hj : j < c) (hx : x < k.words) :
    load32 s.mem (b + j * k.stride + 4 * x) = st.word b (k.words * j + x) := by
  have hend := mul_le_mul_left k.words hj
  rw [mul_succ] at hend
  refine h.load_eq hb hk ?_ ?_
  · rw [stride_eq_words hk, mul_assoc]
    omega
  · rw [stride_eq_words hk, mul_comm k.words j, mul_left_comm j 4]
    omega

private theorem Lay.byte_zero (h : Lay s st) : s.mem 0 = 0 := by
  have hsize : load32 s.mem 0 = 1048576 := h.size
  have h0 := (s.mem 0).toNat_lt
  unfold load32 at hsize
  have hzero : (s.mem 0).toNat = 0 := by omega
  exact UInt8.toNat_inj.1 hzero

theorem Lay.cstrAt_eq (h : Lay s st) {off} (hs : st.StrOk off) : s.cstrAt off = st.str off := by
  rcases hs with rfl | ⟨c, hb⟩
  · rw [h.noStr (fun c hb => by rw [h.blk_zero] at hb; simp at hb)]
    exact cstr_of_zero h.byte_zero
  · obtain ⟨hbyt, hlen⟩ := h.str hb
    refine cstr_of_hasBytes hbyt ?_
    have hend := h.blk_end hb
    have hle := h.used_le
    have hstr : Kind.stride .str * c = c := by simp [Kind.stride]
    rw [h.size]
    omega

theorem Lay.hashmapIndex_eq (h : Lay s st) (hok : st.Ok) (key : CString) : hashmapIndex s key = st.index key := by
  unfold hashmapIndex Store.index
  rw [h.count]
  refine List.find?_congr ?_
  intro i hi
  have hi : i < st.count := List.mem_range.1 hi
  have hcap := hok.count_le
  have hload : s.load (s.keysOff + i * 4) = st.word st.keysOff i := by
    refine h.load_eq hok.keys (by decide) ?_ (by rw [h.keysOff]; omega)
    simp only [Kind.stride]
    omega
  rw [hload, h.cstrAt_eq (hok.keyStr hi)]

/-! ### The map -/

def listPtr (b i : Nat) : Ptr := (shmPtr .values b).elem i

def patchPtr (b j : Nat) : Ptr := (shmPtr .patches b).elem j

section

variable (h : Lay s st)

include h

private theorem Lay.capacity_le (hb : st.blk b = some (k, c)) : k.stride * c ≤ 1048576 := by
  have h1 := h.blk_end hb
  have h2 := h.used_le
  have h3 : shmIpcSize = 1048576 := rfl
  omega

private theorem Lay.moveMap {nk nv n} (hpos : 0 < st.capacity) (hn : n = st.capacity * 2)
    (hn32 : n < 2 ^ 32) (hkeys : st.blk st.keysOff = some (.keys, st.capacity))
    (hval : st.blk st.valuesOff = some (.values, st.capacity)) (hnk : st.blk nk = some (.keys, n))
    (hnv : st.blk nv = some (.values, n)) :
    let s3 := s.memcpy (shmPtr .keys nk) s.keysOff (s.capacity * 4)
    let s4 := s3.memcpy (shmPtr .values nv) s3.valuesOff (s3.capacity * 12)
    let s5 := s4.memset ((shmPtr .keys nk).member (s4.capacity * 4)) (s4.capacity * 4)
    let s6 := s5.memset ((shmPtr .values nv).member (s5.capacity * 12)) (s5.capacity * 12)
    Lay (((s6.setKeysOff nk).setValuesOff nv).setCapacity n) (st.moveMap nk nv n) := by
  intro s3 s4 s5 s6
  have hlt := h.used_le
  have hsz : shmIpcSize = 1048576 := rfl
  have hnk' := h.blk_lt hnk
  have hnv' := h.blk_lt hnv
  have h3 : Lay s3 (st.copyWords nk 0 st.keysOff 0 st.capacity) := by
    refine h.memcpy hnk (by decide) rfl hkeys (by decide) h.keysOff ?_ hpos ?_ ?_
    · rw [h.capacity]
      omega
    · simp only [Kind.stride]
      omega
    · simp only [Kind.stride]
      omega
  have h4 : Lay s4 ((st.copyWords nk 0 st.keysOff 0 st.capacity).copyWords nv 0 st.valuesOff 0 (3 * st.capacity)) := by
    refine h3.memcpy hnv (by decide) rfl hval (by decide) h3.valuesOff ?_ (by omega) ?_ ?_
    · rw [h3.capacity]
      show st.capacity * 12 = _
      omega
    · simp only [Kind.stride]
      omega
    · simp only [Kind.stride]
      omega
  have h5 := h4.memset (p := (shmPtr .keys nk).member (s4.capacity * 4)) (n := s4.capacity * 4) (w := st.capacity)
    hnk (by decide) (by rw [h4.capacity]; simp only [shmPtr, Ptr.member, copyWords]; congr 1; omega)
    (by rw [h4.capacity]; exact mul_comm ..) hpos (by simp only [Kind.stride]; omega)
  have h6 := h5.memset (p := (shmPtr .values nv).member (s5.capacity * 12)) (n := s5.capacity * 12)
    (w := 3 * st.capacity) (m := 3 * st.capacity) hnv (by decide)
    (by rw [h5.capacity]; simp only [shmPtr, Ptr.member, copyWords, zeroWords]; congr 1; omega)
    (by rw [h5.capacity]; show st.capacity * 12 = _; omega) (by omega) (by simp only [Kind.stride]; omega)
  exact ((h6.setKeysOff (by omega)).setValuesOff (by omega)).setCapacity hn32

theorem Lay.hashmapGrow (hok : st.Ok) :
    ∃ s' st' ok, hashmapGrow s = (s', ok) ∧ st.grow = (st', ok) ∧ Lay s' st' := by
  have hcap : 12 * st.capacity ≤ 1048576 := h.capacity_le hok.values
  have hpos := hok.blocks.pos hok.keys
  have hu32 : u32 (s.capacity * 2) = st.capacity * 2 := by
    rw [h.capacity]
    exact u32_of_lt (by omega)
  obtain ⟨s1, st1, nk, e1, e1', h1⟩ := h.salloc (k := .keys) (c := st.capacity * 2) (n := st.capacity * 2 * 4) (by decide)
    (by omega) (by simp only [Kind.stride]; omega) (by omega)
  obtain ⟨s2, st2, nv, e2, e2', h2⟩ := h1.salloc (k := .values) (c := st.capacity * 2) (n := st.capacity * 2 * 12)
    (by decide) (by omega) (by simp only [Kind.stride]; omega) (by omega)
  simp only [CloudeLoader.hashmapGrow, hu32, e1, e2, Store.grow, e1', e2']
  by_cases hz : nk = 0 ∨ nv = 0
  · rw [if_pos hz, if_pos hz]
    exact ⟨_, _, _, rfl, rfl, h2⟩
  · rw [if_neg hz, if_neg hz]
    refine ⟨_, _, _, rfl, rfl, ?_⟩
    obtain ⟨rfl, rfl⟩ := st.alloc_of_ne_zero e1' (fun h0 => hz (.inl h0))
    obtain ⟨rfl, rfl⟩ := alloc_of_ne_zero _ e2' (fun h0 => hz (.inr h0))
    have hb1 := hok.blocks.withBlock (k := .keys) (c := st.capacity * 2) (by omega)
    have hk1 := hb1.keeps_withBlock (k := .values) (c := st.capacity * 2)
    have hk := hok.blocks.keeps_withBlock.trans hk1
    have hnk := hk1.blk (show _ = some (Kind.keys, st.capacity * 2) by rw [blk_withBlock, if_pos rfl])
    exact h2.moveMap hpos rfl (by omega) (hk.blk hok.keys) (hk.blk hok.values) hnk
      (by rw [blk_withBlock, if_pos rfl])

private theorem Lay.used_lt : st.used < 2 ^ 32 := by
  have hle := h.used_le
  have hsz : shmIpcSize = 1048576 := rfl
  omega

private theorem Lay.strOk_lt {off} (hs : st.StrOk off) : off < 2 ^ 32 := by
  have hle := h.used_le
  have hsz : shmIpcSize = 1048576 := rfl
  rcases hs with rfl | ⟨c, hb⟩
  · omega
  · have := h.blk_lt hb
    omega

private theorem Lay.strdup_frame {str} (hlen : str.length < 2 ^ 31) :
    ∃ s' st' off, shmStrdup s str = (s', off) ∧ st.strdup str = (st', off) ∧ Lay s' st' ∧ off < 2 ^ 32 ∧
      ∀ {b x}, st.blk b = some x → st'.blk b = some x := by
  obtain ⟨s1, st1, off, e, e', h1⟩ := h.strdup hlen
  refine ⟨s1, st1, off, e, e', h1, ?_⟩
  have hpos : 0 < st.used := by
    have := h.used_ge
    omega
  rcases st.strdup_cases hpos str with ⟨-, e''⟩ | ⟨-, e''⟩
  · cases e'.symm.trans e''
    exact ⟨by omega, fun hb => hb⟩
  · cases e'.symm.trans e''
    refine ⟨h.used_lt, ?_⟩
    intro b x hb
    refine (blk_withBlock st).trans (if_neg ?_ |>.trans hb)
    rintro rfl
    rw [h.blk_used] at hb
    simp at hb

theorem Lay.strdup_spec (hok : st.Ok) {str} (hlen : str.length < 2 ^ 31) :
    ∃ s' st' off, shmStrdup s str = (s', off) ∧ st.strdup str = (st', off) ∧ Lay s' st' ∧
      st.StrdupSpec st' off str ∧ off < 2 ^ 32 := by
  obtain ⟨s1, st1, off, e, e', h1⟩ := h.strdup hlen
  obtain ⟨st1', off', e'', hs⟩ := hok.strdup str
  obtain ⟨rfl, rfl⟩ : st1 = st1' ∧ off = off' := by
    rw [e'] at e''
    injection e'' with h1 h2
    exact ⟨h1, h2⟩
  exact ⟨s1, st1, off, e, e', h1, hs, h1.strOk_lt hs.strOk⟩

theorem Lay.storeElem {p o v} (hb : st.blk b = some (k, c)) (hk : k ≠ .str) (hj : j < c) (hx : x < k.words)
    (hp : p = (shmPtr k b).elem j) (ho : o = 4 * x) (hv : v < 2 ^ 32) :
    Lay (s.store (p.member o) v) (st.setWord b (k.words * j + x) v) := by
  subst hp ho
  have hend := mul_le_mul_left k.words hj
  rw [mul_succ] at hend
  refine h.store hb hk ?_ ?_ hv
  · simp only [Ptr.elem, Ptr.member, shmPtr]
    congr 1
    rw [stride_eq_words hk, mul_comm k.words j, mul_left_comm j 4]
    omega
  · rw [stride_eq_words hk, mul_assoc]
    omega

theorem Lay.hashmapAppend (hok : st.Ok) (hlt : st.count < st.capacity) {key} (hlen : key.length < 2 ^ 31) :
    ∃ s' st' i, hashmapAppend s key = (s', listPtr st.valuesOff i) ∧ st.append key = (st', i) ∧ Lay s' st' := by
  have hcap : 12 * st.capacity ≤ 1048576 := h.capacity_le hok.values
  obtain ⟨s1, st1, off, e, e', h1, hs, hoff⟩ := h.strdup_spec hok hlen
  obtain ⟨hko, hvo, hcn, hcp⟩ := hs.map
  have h2 : Lay (s1.store ((shmPtr .keys s.keysOff).elem s1.count) off) (st1.setWord st1.keysOff st1.count off) := by
    refine h1.store hs.ok.keys (by decide) ?_ (by simp only [Kind.stride]; omega) hoff
    rw [h.keysOff, h1.count, hko]
    simp only [Ptr.elem, shmPtr, Kind.stride]
    congr 1
    omega
  have hptr : ∀ {s' st'}, Lay s' st' → st'.count = st1.count →
      (shmPtr .values s.valuesOff).elem s'.count = listPtr st1.valuesOff st1.count := by
    intro s' st' h' hc
    rw [h'.count, hc, h.valuesOff, hvo]
    rfl
  simp only [CloudeLoader.hashmapAppend, e, Store.append, e']
  generalize s1.store ((shmPtr .keys s.keysOff).elem s1.count) off = s2 at h2 ⊢
  have h3 := h2.storeElem (x := 0) (v := 0) hs.ok.values (by decide) (by omega) (by decide) (hptr h2 rfl) rfl (by omega)
  generalize s2.store (((shmPtr .values s.valuesOff).elem s2.count).member 0) 0 = s3 at h3 ⊢
  have h4 := h3.storeElem (x := 1) (v := 0) hs.ok.values (by decide) (by omega) (by decide) (hptr h3 rfl) rfl (by omega)
  generalize s3.store (((shmPtr .values s.valuesOff).elem s3.count).member 4) 0 = s4 at h4 ⊢
  have h5 := h4.storeElem (x := 2) (v := 0) hs.ok.values (by decide) (by omega) (by decide) (hptr h4 rfl) rfl (by omega)
  generalize s4.store (((shmPtr .values s.valuesOff).elem s4.count).member 8) 0 = s5 at h5 ⊢
  refine ⟨_, _, _, Prod.ext rfl ?_, rfl, ?_⟩
  · rw [hptr h5 rfl, hvo]
    rfl
  · rw [h5.count]
    exact h5.setCount (show st1.count + 1 < _ by omega)

theorem Lay.hashmapGet_eq (hok : st.Ok) (key : CString) :
    hashmapGet s key = (st.index key).map (listPtr st.valuesOff) := by
  unfold hashmapGet
  rw [h.hashmapIndex_eq hok, h.valuesOff]
  rfl

private theorem Lay.keyRoom (hok : st.Ok) :
    ∃ s1 st1 ok, (if s.count ≥ s.capacity then CloudeLoader.hashmapGrow s else (s, true)) = (s1, ok) ∧
      (if st.count ≥ st.capacity then st.grow else (st, true)) = (st1, ok) ∧ Lay s1 st1 ∧ (ok = true → st.KeyRoom st1) := by
  rw [h.count, h.capacity]
  by_cases hfull : st.count ≥ st.capacity
  · obtain ⟨s1, st1, ok, e, e', h1⟩ := h.hashmapGrow hok
    rw [if_pos hfull, if_pos hfull]
    refine ⟨s1, st1, ok, e, e', h1, ?_⟩
    rintro rfl
    rcases hok.grow with ⟨st2, e2, -⟩ | ⟨st2, e2, hs⟩ <;> cases e'.symm.trans e2
    exact .moved hfull e' hs
  · rw [if_neg hfull, if_neg hfull]
    exact ⟨s, st, true, rfl, rfl, h, fun _ => .fits (Nat.lt_of_not_le hfull)⟩

theorem Lay.hashmapAddKey (hok : st.Ok) {key} (hlen : key.length < 2 ^ 31) :
    ∃ s' st' r, hashmapAddKey s key = (s', r.map (listPtr st'.valuesOff)) ∧ st.addKey key = (st', r) ∧ Lay s' st' := by
  have hget := h.hashmapGet_eq hok key
  cases hidx : st.index key with
  | some i =>
    refine ⟨s, st, some i, ?_, ?_, h⟩
    · simp only [CloudeLoader.hashmapAddKey, hget, hidx, map_some]
    · simp only [Store.addKey, hidx]
  | none =>
    obtain ⟨s1, st1, ok, e, e', h1, hr⟩ := h.keyRoom hok
    simp only [CloudeLoader.hashmapAddKey, hget, hidx, map_none, Store.addKey, e, e']
    cases ok with
    | false => exact ⟨s1, st1, none, rfl, rfl, h1⟩
    | true =>
      have hok1 := (hr rfl).ok hok
      have hlt := (hr rfl).lt hok
      obtain ⟨s2, st2, i, e2, e2', h2⟩ := h1.hashmapAppend hok1 hlt hlen
      obtain ⟨_, st3, e3, hs3⟩ := hok1.append hlt key
      cases e2'.symm.trans e3
      refine ⟨s2, st2, some st1.count, ?_, ?_, h2⟩
      · simp only [e2, map_some, hs3.valuesOff]
      · simp only [e2']

theorem Lay.hashmapRemove (hok : st.Ok) (key : CString) : Lay (hashmapRemove s key) (st.remove key) := by
  have hcap : 12 * st.capacity ≤ 1048576 := h.capacity_le hok.values
  have hcnt := hok.count_le
  simp only [CloudeLoader.hashmapRemove, h.hashmapIndex_eq hok, Store.remove]
  cases hidx : st.index key with
  | none => exact h
  | some i =>
    simp only [h.count]
    by_cases hlt : i < st.count - 1
    · simp only [hlt, ↓reduceIte]
      have h1 : Lay (s.memcpy ((shmPtr .keys s.keysOff).elem i) ((shmPtr .keys s.keysOff).elem (i + 1)).addr
          ((st.count - i - 1) * 4)) (st.copyWords st.keysOff i st.keysOff (i + 1) (st.count - i - 1)) := by
        refine h.memcpy hok.keys (by decide) ?_ hok.keys (by decide) ?_ (mul_comm ..) (by omega) ?_ ?_
        · rw [h.keysOff]
          simp only [Ptr.elem, shmPtr, Kind.stride]
          congr 1
          omega
        · rw [h.keysOff]
          simp only [Ptr.elem, shmPtr, Kind.stride]
          omega
        · simp only [Kind.stride]
          omega
        · simp only [Kind.stride]
          omega
      generalize s.memcpy ((shmPtr .keys s.keysOff).elem i) ((shmPtr .keys s.keysOff).elem (i + 1)).addr
          ((st.count - i - 1) * 4) = s1 at h1 ⊢
      have h2 : Lay (s1.memcpy ((shmPtr .values s.valuesOff).elem i) ((shmPtr .values s.valuesOff).elem (i + 1)).addr
          ((st.count - i - 1) * 12)) ((st.copyWords st.keysOff i st.keysOff (i + 1) (st.count - i - 1)).copyWords
            st.valuesOff (3 * i) st.valuesOff (3 * (i + 1)) (3 * (st.count - i - 1))) := by
        refine h1.memcpy hok.values (by decide) ?_ hok.values (by decide) ?_ (by omega) (by omega) ?_ ?_
        · rw [h.valuesOff]
          simp only [Ptr.elem, shmPtr, Kind.stride]
          congr 1
          omega
        · rw [h.valuesOff]
          simp only [Ptr.elem, shmPtr, Kind.stride]
          omega
        · simp only [Kind.stride]
          omega
        · simp only [Kind.stride]
          omega
      rw [h2.count]
      exact h2.setCount (show st.count - 1 < _ by omega)
    · simp only [hlt, ↓reduceIte, h.count]
      exact h.setCount (by omega)

/-! ### Arrays that grow -/

theorem Lay.markInit {n} : Lay s (st.markInit b n) :=
  { h with }

theorem Lay.patchAt_eq (hb : st.blk b = some (.patches, c)) (hj : j < c) :
    patchAt s.mem (patchPtr b j).addr = st.patchAt b j := by
  have hword : ∀ x, x < Kind.patches.words → _ := fun _ hx => h.elem_eq hb (by decide) hj hx
  simp only [words_patches, Kind.stride] at hword
  have h0 := hword 0 (by omega)
  have h1 := hword 1 (by omega)
  have h2 := hword 2 (by omega)
  have h3 := hword 3 (by omega)
  have h4 := hword 4 (by omega)
  simp only [patchAt, Store.patchAt, patchPtr, Ptr.elem, shmPtr, Kind.stride]
  simp only [mul_zero, add_zero] at h0
  rw [h0, h1, h2, h3, h4]

theorem Lay.listAt_eq (hb : st.blk b = some (.values, c)) (hi : i < c) :
    patchListAt s.mem (listPtr b i).addr = st.listAt b i := by
  have hword : ∀ x, x < Kind.values.words → _ := fun _ hx => h.elem_eq hb (by decide) hi hx
  simp only [words_values, Kind.stride] at hword
  have h0 := hword 0 (by omega)
  have h1 := hword 1 (by omega)
  have h2 := hword 2 (by omega)
  simp only [patchListAt, Store.listAt, listPtr, Ptr.elem, shmPtr, Kind.stride]
  simp only [mul_zero, add_zero] at h0
  rw [h0, h1, h2]

end

private theorem Lay.copyArray {n off cap} (h : Lay s (st.withBlock k n)) (hok : st.Ok) (hk : k.IsArray)
    (hsrc : off ≠ 0 → st.blk off = some (k, cap)) (hgt : cap < n) :
    ∃ s2 st2, (if off ≠ 0 then s.memcpy (shmPtr k st.used) off (cap * k.stride) else s) = s2 ∧
      (if off ≠ 0 then (st.withBlock k n).copyWords st.used 0 off 0 (k.words * cap) else st.withBlock k n) = st2 ∧
      Lay s2 st2 ∧ ∀ {b x}, st.blk b = some x → st2.blk b = some x := by
  have hkps := hok.blocks.keeps_withBlock (k := k) (c := n)
  have hstr : k ≠ .str ∧ 0 < k.words := by rcases hk with rfl | rfl <;> decide
  by_cases h0 : off ≠ 0
  · have hpos := hok.blocks.pos (hsrc h0)
    have hnew : (st.withBlock k n).blk st.used = some (k, n) := by
      rw [blk_withBlock, if_pos rfl]
    have hmul := mul_le_mul_left k.words (le_of_lt hgt)
    refine ⟨_, _, if_pos h0, if_pos h0, ?_, hkps.blk⟩
    refine h.memcpy hnew hstr.1 rfl (hkps.blk (hsrc h0)) hstr.1 rfl ?_ (mul_pos hstr.2 hpos) ?_ ?_
    · rw [stride_eq_words hstr.1, mul_comm, mul_assoc]
    · rw [stride_eq_words hstr.1, mul_assoc]
      omega
    · rw [stride_eq_words hstr.1, mul_assoc]
      omega
  · exact ⟨_, _, if_neg h0, if_neg h0, h, hkps.blk⟩

section

variable (h : Lay s st)

include h

private theorem Lay.nextCapacity_eq {cap off} (hcap : cap ≠ 0 → st.blk off = some (k, cap))
    (hk : 8 ≤ k.stride) :
    (if cap ≠ 0 then u32 (cap * 2) else 4) = nextCapacity cap ∧ 0 < nextCapacity cap ∧
      nextCapacity cap * k.stride ≤ 2 * 1048576 + 4 * k.stride := by
  have hle : cap * k.stride ≤ 1048576 := by
    by_cases h0 : cap = 0
    · simp [h0]
    · rw [mul_comm]
      exact h.capacity_le (hcap h0)
  have hle' : cap * 8 ≤ cap * k.stride := mul_le_mul_left cap hk
  unfold nextCapacity
  rw [u32_of_lt (by omega)]
  refine ⟨rfl, by split <;> omega, ?_⟩
  split
  · rw [mul_right_comm]
    omega
  · omega

/-- The pointer to the offset, count and capacity of an array. -/
def headPtr (k : Kind) (b w : Nat) : Ptr := ⟨k, b, b + 4 * w⟩

private theorem Lay.head_eq (hb : st.blk b = some (k, c)) (hin : k ≠ .str ∧ 4 * w + 12 ≤ k.stride * c) :
    s.load (headPtr k b w).addr = st.word b w ∧ s.load ((headPtr k b w).addr + 4) = st.word b (w + 1) ∧
      s.load ((headPtr k b w).addr + 8) = st.word b (w + 2) :=
  ⟨h.load_eq hb hin.1 (by omega) rfl, h.load_eq hb hin.1 (by omega) rfl, h.load_eq hb hin.1 (by omega) rfl⟩

variable (hok : st.Ok) (hh : st.Head k b w) (hb : st.blk b = some (k', c))

include hok hh hb

theorem Lay.growArray : ∃ s' st' ok, growArray s k (headPtr k' b w) = (s', ok) ∧ st.growArray k b w = (st', ok) ∧ Lay s' st' := by
  have hin := hh.inside hok hb
  obtain ⟨-, -, hcap⟩ := h.head_eq hb hin
  have hsrc := fun hne => ((hok.heads hh).present hne).1
  have hkind : 8 ≤ k.stride ∧ k.stride ≤ 20 ∧ k ≠ .str := by rcases hh.isArray with rfl | rfl <;> decide
  obtain ⟨hnext, hnpos, hnle⟩ := h.nextCapacity_eq (fun h0 => hsrc (.inr h0)) hkind.1
  obtain ⟨s1, st1, off, e, e', h1⟩ := h.salloc (n := nextCapacity (st.word b (w + 2)) * k.stride) hkind.2.2 hnpos
    (mul_comm ..) (by omega)
  simp only [CloudeLoader.growArray, hcap, hnext, e, Store.growArray, e']
  by_cases hz : off = 0
  · simp only [hz, ↓reduceIte]
    exact ⟨_, _, _, rfl, rfl, h1⟩
  · simp only [hz, ↓reduceIte]
    refine ⟨_, _, _, rfl, rfl, ?_⟩
    obtain ⟨rfl, rfl⟩ := st.alloc_of_ne_zero e' hz
    obtain ⟨hoff, -, hcap1⟩ := h1.head_eq (hok.blocks.keeps_withBlock.blk hb) hin
    rw [hoff, hcap1]
    obtain ⟨s2, st2, e2, e2', h2, hkeep⟩ := h1.copyArray hok hh.isArray (fun h0 => hsrc (.inl h0)) (nextCapacity_gt _)
    have h3 := h2.store (p := headPtr k' b w) (hkeep hb) hin.1 rfl (by omega) h.used_lt
    have hn := mul_le_mul_left (nextCapacity (st.word b (w + 2))) hkind.1
    have h4 := h3.store (p := (headPtr k' b w).member 8) (v := nextCapacity (st.word b (w + 2))) (w := w + 2) (hkeep hb)
      hin.1 rfl (by omega) (by omega)
    subst e2 e2'
    exact h4.markInit

theorem Lay.arrayRoom :
    (∃ s' st', arrayRoom s k (headPtr k' b w) = (s', false) ∧ st.arrayRoom k b w = (st', false) ∧ Lay s' st') ∨
    ∃ s' st', arrayRoom s k (headPtr k' b w) = (s', true) ∧ st.arrayRoom k b w = (st', true) ∧ Lay s' st' ∧
      st.Room k b w st' := by
  obtain ⟨-, hcnt, hcap⟩ := h.head_eq hb (hh.inside hok hb)
  have hroom := arrayRoom_cases hok hh
  simp only [CloudeLoader.arrayRoom, hcnt, hcap]
  unfold Store.arrayRoom at hroom ⊢
  by_cases hfull : st.word b (w + 1) ≥ st.word b (w + 2)
  · obtain ⟨s1, st1, ok, e, e', h1⟩ := h.growArray hok hh hb
    simp only [hfull, ↓reduceIte, e, e'] at hroom ⊢
    cases ok with
    | false => exact .inl ⟨s1, st1, rfl, rfl, h1⟩
    | true =>
      refine .inr ⟨s1, st1, rfl, rfl, h1, ?_⟩
      rcases hroom with ⟨-, -, he⟩ | ⟨st2, hr, he⟩
      · simp at he
      · injection he with he
        exact he ▸ hr
  · rw [if_neg hfull, if_neg hfull]
    exact .inr ⟨s, st, rfl, rfl, h, .fits (Nat.lt_of_not_le hfull)⟩

/-- The offsets of the two strings are written; what else an element holds is not, yet. -/
theorem Lay.appendElem (hlt : st.word b (w + 1) < st.word b (w + 2)) {str str'} (hs : str.length < 2 ^ 31)
    (hs' : str'.length < 2 ^ 31) :
    ∃ s' o o', ∃ st' : Store, appendElem s k (headPtr k' b w) str str' = (s', (shmPtr k (st.word b w)).elem (st.word b (w + 1))) ∧
      Lay s' ((st'.setWord (st.word b w) (k.words * st.word b (w + 1)) o).setWord (st.word b w)
        (k.words * st.word b (w + 1) + 1) o') ∧ st'.blk (st.word b w) = some (k, st.word b (w + 2)) ∧
      st.appendElem k b w str str' =
        (st'.setElem k (st.word b w) (st.word b (w + 1)) o o').markInit (st.word b w) (st.word b (w + 1) + 1) := by
  have hin := hh.inside hok hb
  obtain ⟨hoff, hcnt, -⟩ := h.head_eq hb hin
  have hblk := (hok.heads hh).blk hlt
  have hkind : 1 < k.words ∧ 8 ≤ k.stride ∧ k ≠ .str := by rcases hh.isArray with rfl | rfl <;> decide
  have hcap := le_trans (mul_le_mul_right _ hkind.2.1) (h.capacity_le hblk)
  have h1 := h.store (p := (headPtr k' b w).member 4) (v := st.word b (w + 1) + 1) (w := w + 1) hb hin.1 rfl (by omega)
    (by omega)
  obtain ⟨s2, st2, o, e2, e2', h2, ho, hk2⟩ := h1.strdup_frame hs
  have h3 := h2.storeElem (x := 0) (hk2 hblk) hkind.2.2 hlt (by omega) rfl rfl ho
  obtain ⟨s4, st4, o', e4, e4', h4, ho', hk4⟩ := h3.strdup_frame hs'
  have h5 := h4.storeElem (x := 1) (hk4 (hk2 hblk)) hkind.2.2 hlt hkind.1 rfl rfl ho'
  rw [strdup_setWord] at e4'
  rcases e : st2.strdup str' with ⟨st3, o''⟩
  rw [e] at e4'
  cases e4'
  simp only [CloudeLoader.appendElem, hoff, hcnt, e2, e4, Store.appendElem, e2', e]
  refine ⟨_, o, o'', st3, rfl, h5, hk4 (hk2 hblk), rfl⟩

omit hok hh hb in
theorem Lay.patchAddTransform (hok : st.Ok) (hb : st.blk b = some (.patches, c)) (hj : j < st.init b)
    {mtch replace} (hm : mtch.length < 2 ^ 31) (hr : replace.length < 2 ^ 31) :
    Lay (patchAddTransform s (patchPtr b j) mtch replace) (st.addTransform b j mtch replace) := by
  have hh : st.Head .transforms b (5 * j + 2) := .patch hb hj
  have hptr : (patchPtr b j).member 8 = headPtr .patches b (5 * j + 2) := by
    simp only [patchPtr, headPtr, Ptr.member, Ptr.elem, shmPtr, Kind.stride]
    congr 1
    omega
  simp only [CloudeLoader.patchAddTransform, hptr, Store.addTransform, Store.addElem]
  rcases h.arrayRoom hok hh hb with ⟨s1, st1, e, e', h1⟩ | ⟨s1, st1, e, e', h1, hroom⟩
  · simp only [e, e']
    exact h1
  · simp only [e, e']
    obtain ⟨s2, o, o', st2, e2, h2, -, e2'⟩ := h1.appendElem (hroom.ok hok hh) (hh.mono (hroom.le hok))
      ((hroom.le hok).blk hb) (hroom.lt hok hh) hm hr
    rw [e2, e2', setElem_transforms]
    exact h2.markInit

omit hok hh hb in
theorem Lay.patchlistAdd (hok : st.Ok) (hb : st.blk b = some (.values, c)) (hi : i < c)
    {file find} (hf : file.length < 2 ^ 31) (hn : find.length < 2 ^ 31) :
    ∃ s' st' r, patchlistAdd s (listPtr b i) file find = (s', r.map fun x => patchPtr x.1 x.2) ∧
      st.addPatch b i file find = (st', r) ∧ Lay s' st' := by
  have hh : st.Head .patches b (3 * i) := .list hb hi
  have hptr : listPtr b i = headPtr .values b (3 * i) := by
    simp only [listPtr, headPtr, Ptr.elem, shmPtr, Kind.stride]
    congr 1
    omega
  simp only [CloudeLoader.patchlistAdd, hptr, Store.addPatch, Store.addElem]
  rcases h.arrayRoom hok hh hb with ⟨s1, st1, e, e', h1⟩ | ⟨s1, st1, e, e', h1, hroom⟩
  · simp only [e, e']
    exact ⟨s1, st1, none, rfl, rfl, h1⟩
  · have hh1 := hh.mono (hroom.le hok)
    have hlt := hroom.lt hok hh
    obtain ⟨s2, o, o', st2, e2, h2, hblk, e2'⟩ := h1.appendElem (hroom.ok hok hh) hh1 ((hroom.le hok).blk hb) hlt hf hn
    have h3 := h2.storeElem (x := 2) (v := 0) hblk (by decide) hlt (by decide) rfl rfl (by omega)
    have h4 := h3.storeElem (x := 3) (v := 0) hblk (by decide) hlt (by decide) rfl rfl (by omega)
    have h5 := h4.storeElem (x := 4) (v := 0) hblk (by decide) hlt (by decide) rfl rfl (by omega)
    obtain ⟨_, _, hs⟩ := hroom.append hok hh file find
    have hoff := hs.word_off (hh1.ne_off (hroom.ok hok hh) hlt)
    simp only [e, e', e2, listAt, hoff, ← (hroom.sizes (hh.ne_used hok)).1]
    refine ⟨_, _, some (_, _), rfl, rfl, ?_⟩
    rw [e2', setElem_patches]
    exact h5.markInit

end

/-! ### Initialisation -/

def Store.blank (s : Arena) : Store :=
  { used := 24, keysOff := s.keysOff, valuesOff := s.valuesOff, count := s.count, capacity := s.capacity
    blk := fun _ => none, word := fun b w => load32 s.mem (b + 4 * w), str := fun _ => ⟨[], by simp⟩
    init := fun _ => 0, refusals := 0 }

private theorem used_screate (m : Mem) : (screate m shmIpcSize).used = 24 := by
  show load32 (store32 (store32 m 0 shmIpcSize) 4 24) 4 = 24
  rfl

theorem lay_screate (m : Mem) : Lay (screate m shmIpcSize) (Store.blank (screate m shmIpcSize)) where
  size := by
    show load32 (store32 (store32 m 0 shmIpcSize) 4 24) 0 = shmIpcSize
    rw [load32_store32_ne _ (by omega), load32_store32_same]
    rfl
  used := used_screate m
  keysOff := rfl
  valuesOff := rfl
  count := rfl
  capacity := rfl
  used_mod := show 24 % 8 = 0 from rfl
  used_le := show 24 ≤ 1048576 by omega
  word := fun hb => by simp [Store.blank] at hb
  fresh := fun _ _ _ => rfl
  str := fun hb => by simp [Store.blank] at hb
  noStr := fun _ => rfl
  pos := fun hb => by simp [Store.blank] at hb
  obj := fun hb => by simp [Store.blank] at hb
  refusals := rfl
  trace := by
    have hobj : (screate m shmIpcSize).objects = [⟨.header, 0, 24⟩] := rfl
    refine ⟨?_, ?_, ?_, ?_⟩
    · rw [hobj]
      exact List.pairwise_singleton ..
    · rw [hobj]
      simp
    · rw [hobj, used_screate]
      simp
    · intro k b a n hmem
      rw [hobj]
      simp only [screate, Arena.setUsed, Arena.store, headerPtr, Ptr.member, shmPtr, List.mem_cons, Event.write.injEq,
        List.not_mem_nil, or_false] at hmem
      refine ⟨_, List.mem_singleton.2 rfl, ?_⟩
      rcases hmem with ⟨rfl, rfl, rfl, rfl⟩ | ⟨rfl, rfl, rfl, rfl⟩ <;> simp

private theorem Lay.outOfSpace_of_refuse (h : Lay s st.refuse) : s.OutOfSpace := by
  by_contra hne
  have := h.refusals.symm.trans ((refusals_eq_zero s).2 hne)
  simp [refuse] at this

theorem Lay.hashmapInit (h : Lay s st) :
    (shmIpcSize < st.used + 256 ∧ (hashmapInit s).OutOfSpace) ∨ Lay (hashmapInit s) st.initMap := by
  have h2 := (h.setCapacity (v := 16) (by omega)).setCount (v := 0) (by omega)
  have hcap : ((s.setCapacity 16).setCount 0).capacity = 16 := h2.capacity
  simp only [CloudeLoader.hashmapInit, hcap]
  generalize (s.setCapacity 16).setCount 0 = s2 at h2 ⊢
  obtain ⟨s3, st3, off, e, e', h3⟩ := h2.salloc (k := .keys) (c := 16) (n := 16 * 4) (by decide) (by omega) rfl (by omega)
  simp only [e]
  rcases alloc_cases { st with count := 0, capacity := 16 } .keys 16 with ⟨hlt, e2⟩ | ⟨-, e2⟩
  · cases e2.symm.trans e'
    refine .inl ⟨lt_of_lt_of_le hlt (show st.used + 64 ≤ _ by omega), ?_⟩
    exact h3.outOfSpace_of_refuse.mono (Extends.refl s3).store.memset.salloc.store.memset
  · cases e2.symm.trans e'
    have h4 := h3.setKeysOff h.used_lt
    have hblk : (withBlock { st with count := 0, capacity := 16 } .keys 16).blk st.used = some (.keys, 16) := by
      exact if_pos rfl
    have h5 := h4.memset (p := shmPtr .keys (s3.setKeysOff st.used).keysOff)
      (n := (s3.setKeysOff st.used).capacity * 4) (m := 16) (w := 0) hblk (by decide) (by rw [h4.keysOff]; rfl)
      (by rw [h4.capacity]; rfl) (by omega) (by decide)
    generalize (s3.setKeysOff st.used).memset (shmPtr .keys (s3.setKeysOff st.used).keysOff)
      ((s3.setKeysOff st.used).capacity * 4) = s5 at h5 ⊢
    have hcap5 : s5.capacity = 16 := h5.capacity
    rw [hcap5]
    obtain ⟨s6, st6, nv, e6, e6', h6⟩ := h5.salloc (k := .values) (c := 16) (n := 16 * 12) (by decide) (by omega) rfl
      (by omega)
    simp only [e6]
    rcases alloc_cases _ .values 16 with ⟨hlt, e7⟩ | ⟨-, e7⟩
    · cases e7.symm.trans e6'
      refine Or.inl ⟨lt_of_lt_of_le hlt (show st.used + 64 + 192 ≤ _ by omega), ?_⟩
      exact h6.outOfSpace_of_refuse.mono (Extends.refl s6).store.memset
    · cases e7.symm.trans e6'
      right
      have h7 := h6.setValuesOff (v := st.used + align8 (Kind.keys.stride * 16)) h5.used_lt
      refine h7.memset (k := .values) (c := 16) ?_
        (by decide) ?_ ?_ (by omega) (by decide)
      · rw [blk_withBlock]
        exact if_pos rfl
      · exact congrArg (shmPtr .values) h7.valuesOff
      · exact congrArg (· * 12) h7.capacity

def Store.initial (m : Mem) : Store := (Store.blank (screate m shmIpcSize)).initMap

theorem lay_initArena (m : Mem) : Lay (initArena m) (initial m) := by
  rcases (lay_screate m).hashmapInit with ⟨hlt, -⟩ | h
  · exact absurd (show 1048576 < 24 + 256 from hlt) (by omega)
  · exact h

theorem ok_initial (m : Mem) : (initial m).Ok := by
  have hnone : ∀ b x, (Store.blank (screate m shmIpcSize)).blk b ≠ some x := fun _ _ hb => by simp [Store.blank] at hb
  refine Store.Ok.initMap ⟨rfl, show 0 < 24 by omega, fun _ => rfl, fun hb => absurd hb (hnone _ _),
    fun hb => absurd hb (hnone _ _), fun _ => rfl⟩ (fun hb => absurd hb (hnone _ _)) fun hh => ?_
  cases hh with
  | list hb => exact absurd hb (hnone _ _)
  | patch hb => exact absurd hb (hnone _ _)

end CloudeLoader
