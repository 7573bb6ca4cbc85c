import CloudeLoader.Arena.Ownership

/-!
# What each operation does to the map

For each operation of the store that was refused nothing: the entries it leaves, the map that is read afterwards
and the ownership of the arrays.  The list headers `dead` are those of removed lists.
-/

namespace CloudeLoader

open ByteMemory List

variable {key : CString}

namespace Store

variable {st st' : Store} {b c i j n : Nat} {k : CString} {l l' : PatchListShm} {dead : List PatchListShm}

/-! ### Entries and headers -/

theorem entries_congr (h : st.Ok) (hmap : st.SameMap st') (hkey : ∀ i < st.count, st'.word st.keysOff i = st.word st.keysOff i)
    (hstr : ∀ {off}, st.StrOk off → st'.str off = st.str off)
    (hlist : ∀ i < st.count, st'.listAt st.valuesOff i = st.listAt st.valuesOff i) : st'.entries = st.entries := by
  obtain ⟨hko, hvo, hcn, -⟩ := hmap
  unfold entries
  rw [hko, hvo, hcn]
  refine map_congr_left fun i hi => ?_
  have hi : i < st.count := mem_range.1 hi
  rw [hkey i hi, hlist i hi, hstr (h.keyStr hi)]

theorem entries_set (h : st.Ok) (hmap : st.SameMap st') (hkey : ∀ i < st.count, st'.word st.keysOff i = st.word st.keysOff i)
    (hstr : ∀ {off}, st.StrOk off → st'.str off = st.str off) (he : st.entries[i]? = some (k, l))
    (hlist : ∀ i' < st.count, st'.listAt st.valuesOff i' = if i' = i then l' else st.listAt st.valuesOff i') :
    st'.entries = st.entries.set i (k, l') := by
  obtain ⟨hko, hvo, hcn, -⟩ := hmap
  obtain ⟨hi, e⟩ := getElem?_entries_some he
  injection e with e1 e2
  refine ext_getElem? fun i' => ?_
  rw [getElem?_set, entries_length]
  by_cases hi' : i' < st.count
  · rw [getElem?_entries (by omega), hko, hvo, hkey i' hi', hlist i' hi', hstr (h.keyStr hi')]
    by_cases hii : i = i'
    · subst hii
      rw [if_pos rfl, if_pos rfl, if_pos hi, e1]
    · rw [if_neg (Ne.symm hii), if_neg hii, getElem?_entries hi']
  · rw [if_neg (by omega), getElem?_eq_none (by rw [entries_length]; omega),
      getElem?_eq_none (by rw [entries_length]; omega)]

theorem headers_perm (he : st.entries[i]? = some (k, l)) :
    (st.headers ++ dead).Perm (l :: (st.headers.eraseIdx i ++ dead)) := by
  obtain ⟨hi, e⟩ := List.getElem?_eq_some_iff.1 he
  have hi' : i < st.headers.length := by simpa [headers] using hi
  have hl : st.headers[i] = l := by simp [headers, e]
  rw [← List.cons_append]
  refine List.Perm.append_right dead ?_
  rw [← hl]
  exact (List.getElem_cons_eraseIdx_perm hi').symm

theorem headers_set_perm (he : st.entries[i]? = some (k, l)) (hset : st'.entries = st.entries.set i (k, l')) :
    (l' :: (st.headers.eraseIdx i ++ dead)).Perm (st'.headers ++ dead) := by
  obtain ⟨hi, e⟩ := List.getElem?_eq_some_iff.1 he
  have hi' : i < st.headers.length := by simpa [headers] using hi
  have hh : st'.headers = st.headers.set i l' := by
    unfold headers
    rw [hset, List.map_set]
  rw [hh]
  exact List.Perm.append_right dead (List.set_perm_cons_eraseIdx hi' l').symm

theorem mem_eraseIdx_headers {i' e} (hne : i' ≠ i) (he : st.entries[i']? = some e) :
    e.2 ∈ st.headers.eraseIdx i := by
  rw [mem_eraseIdx_iff_getElem?]
  refine ⟨i', hne, ?_⟩
  simp [headers, he]

theorem readMap_set (he : st.entries[i]? = some (k, l)) (hset : st'.entries = st.entries.set i (k, l'))
    (hoth : ∀ i' e, i' ≠ i → st.entries[i']? = some e → st'.readList e.2 = st.readList e.2) :
    st'.readMap = st.readMap.set i (k, st'.readList l') := by
  refine ext_getElem? fun i' => ?_
  unfold readMap
  rw [hset, getElem?_map, getElem?_set, getElem?_set, length_map]
  by_cases hii : i = i'
  · subst hii
    have hi := (List.getElem?_eq_some_iff.1 he).1
    rw [if_pos rfl, if_pos rfl, if_pos hi, if_pos hi]
    rfl
  · rw [if_neg hii, if_neg hii, getElem?_map]
    cases hi' : st.entries[i']? with
    | none => rfl
    | some e => simp only [Option.map_some, hoth i' e (Ne.symm hii) hi']

theorem readMap_congr (h : st.Ok) (hsame : st.SameArrays st') (he : st'.entries = st.entries) : st'.readMap = st.readMap := by
  unfold readMap
  rw [he]
  exact map_congr_left fun e hmem => by rw [hsame.readList h (h.entry_listOk hmem)]

/-! ### The map -/

theorem GrowSpec.entries_eq (hs : st.GrowSpec st') (h : st.Ok) : st'.entries = st.entries := by
  unfold entries
  rw [hs.count]
  refine map_congr_left fun i hi => ?_
  have hi : i < st.count := mem_range.1 hi
  have hcap := h.count_le
  rw [hs.key (by omega), hs.list (by omega), hs.keeps.str (h.keyStr hi)]

theorem KeyRoom.entries_eq (hr : st.KeyRoom st') (h : st.Ok) : st'.entries = st.entries := by
  cases hr with
  | fits => rfl
  | moved _ _ hs => exact hs.entries_eq h

theorem AppendKeySpec.sameArrays {off} (hs : st.AppendKeySpec key off st') (h : st.Ok) :
    st.SameArrays st' where
  word := by
    intro b k c hb hk w
    have hv : b ≠ st.valuesOff := ne_of_kind hb h.values (by rcases hk with rfl | rfl <;> decide)
    have hkey : b ≠ st.keysOff := ne_of_kind hb h.keys (by rcases hk with rfl | rfl <;> decide)
    rw [hs.word, word_clearHead, if_neg (fun hc => hv hc.1)]
    simp [setWord, hkey]
  str := hs.str

theorem AppendKeySpec.entries_eq {off} (hs : st.AppendKeySpec key off st') (h : st.Ok)
    (hf : st'.refusals = st.refusals) : st'.entries = st.entries ++ [(key, ⟨0, 0, 0⟩)] := by
  have hne : st.keysOff ≠ st.valuesOff := ne_of_kind h.keys h.values (by decide)
  have hkey : ∀ i, st'.word st.keysOff i = if i = st.count then off else st.word st.keysOff i := by
    intro i
    rw [hs.word, word_clearHead, if_neg (fun hc => hne hc.1)]
    simp [setWord]
  have hlist : ∀ i, st'.listAt st.valuesOff i = if i = st.count then ⟨0, 0, 0⟩ else st.listAt st.valuesOff i := by
    intro i
    have hw : st'.listAt st.valuesOff i = ((st.setWord st.keysOff st.count off).clearHead st.valuesOff
        (3 * st.count)).listAt st.valuesOff i := by
      simp only [listAt, hs.word]
    rw [hw, listAt_clearHead]
    simp only [true_and, listAt, word_setWord, hne.symm, false_and, if_false]
  unfold entries
  rw [hs.count, hs.keysOff, hs.valuesOff, range_succ, map_append]
  congr 1
  · refine map_congr_left fun i hi => ?_
    have hi : i < st.count := mem_range.1 hi
    rw [hkey, hlist, if_neg (by omega), if_neg (by omega), hs.str (h.keyStr hi)]
  · simp only [map_cons, map_nil]
    rw [hkey, hlist, if_pos rfl, if_pos rfl, (hs.written hf).2]

theorem addKey_of_index (hidx : st.index key = some i) : st.addKey key = (st, some i) := by
  simp [addKey, hidx]

theorem addKey_new (h : st.Ok) (ho : st.Owned (st.headers ++ dead)) (hnone : st.index key = none)
    (hf : (st.addKey key).1.refusals = st.refusals) :
    ∃ st', st.addKey key = (st', some st.count) ∧ st'.Ok ∧ st'.entries = st.entries ++ [(key, ⟨0, 0, 0⟩)] ∧
      st'.readMap = st.readMap ++ [(key, [])] ∧ st'.Owned (st'.headers ++ dead) ∧
      (st.count < st.capacity → st'.valuesOff = st.valuesOff) := by
  rcases addKey_cases h hnone with ⟨st', -, -, hs, e⟩ | ⟨st1, hr, e⟩
  · rw [e] at hf
    exact absurd hf (Nat.ne_of_gt hs.refused)
  · obtain ⟨off, st', e', hs⟩ := (hr.ok h).append (hr.lt h) key
    rw [e, e'] at hf ⊢
    have h1 := hr.ok h
    have hent : st'.entries = st.entries ++ [(key, ⟨0, 0, 0⟩)] := by
      rw [hs.entries_eq h1 (hf.trans hr.refusals.symm), hr.entries_eq h]
    have hsame : st.SameArrays st' := by
      refine ⟨fun hb hk w => ?_, fun hoff => ?_⟩
      · rw [(hs.sameArrays h1).word (hr.keeps.blk hb) hk, hr.keeps.word hb]
      · rw [hs.str (hr.keeps.strOk hoff), hr.keeps.str hoff]
    refine ⟨st', by rw [hr.count], hs.ok, hent, ?_, ?_, ?_⟩
    · unfold readMap
      rw [hent, map_append]
      congr 1
      exact map_congr_left fun e hmem => by rw [hsame.readList h (h.entry_listOk hmem)]
    · have hmono : st'.Owned (st.headers ++ dead) := by
        refine ho.mono hsame fun l _ hl => ?_
        rcases hr.keeps.listOk hl with h0 | ⟨hb, hcnt⟩
        · exact .inl h0
        · exact .inr ⟨hs.blk hb, by rw [hs.init]; exact hcnt⟩
      refine hmono.cons_null.perm ?_
      unfold headers
      rw [hent, map_append, append_assoc]
      exact perm_middle.symm
    · intro hlt
      cases hr with
      | fits => exact hs.valuesOff
      | moved hfull => omega

theorem RemoveSpec.entries_eq (hs : st.RemoveSpec i st') (hi : i < st.count) : st'.entries = st.entries.eraseIdx i := by
  refine ext_getElem? fun i' => ?_
  rw [getElem?_eraseIdx]
  have hcnt := hs.count
  by_cases hi' : i' < st.count - 1
  · rw [getElem?_entries (by omega), hs.keysOff, hs.valuesOff, hs.key hi', hs.list hi', hs.str]
    split
    · rw [getElem?_entries (by omega)]
    · rw [getElem?_entries (by omega)]
  · rw [getElem?_eq_none (by rw [entries_length]; omega)]
    split
    · omega
    · exact (getElem?_eq_none (by rw [entries_length]; omega)).symm

theorem RemoveSpec.sameArrays (hs : st.RemoveSpec i st') (h : st.Ok) : st.SameArrays st' where
  word := by
    intro b k c hb hk w
    refine hs.rest (ne_of_kind hb h.keys ?_) (ne_of_kind hb h.values ?_)
    · rcases hk with rfl | rfl <;> decide
    · rcases hk with rfl | rfl <;> decide
  str := fun _ => by rw [hs.str]

theorem remove_effect (h : st.Ok) (ho : st.Owned (st.headers ++ dead)) (hidx : st.index key = some i)
    (he : st.entries[i]? = some (k, l)) :
    (st.remove key).entries = st.entries.eraseIdx i ∧ (st.remove key).readMap = st.readMap.eraseIdx i ∧
      (st.remove key).Owned ((st.remove key).headers ++ (l :: dead)) := by
  have hs := h.remove hidx
  have hent := hs.entries_eq (index_some hidx).1
  have hsame := hs.sameArrays h
  refine ⟨hent, ?_, ?_⟩
  · unfold readMap
    rw [hent, ← eraseIdx_map]
    refine congrArg (eraseIdx · i) (map_congr_left fun e hmem => ?_)
    rw [hsame.readList h (h.entry_listOk hmem)]
  · have hmono : (st.remove key).Owned (st.headers ++ dead) := by
      refine ho.mono hsame fun l _ hl => ?_
      unfold ListOk ArrayOk at hl ⊢
      rw [hs.blk, hs.init]
      exact hl
    refine hmono.perm ((headers_perm he).trans ?_)
    have hh : (st.remove key).headers = st.headers.eraseIdx i := by
      unfold headers
      rw [hent, ← eraseIdx_map]
    rw [hh]
    exact perm_middle.symm

theorem initMap_effect (h : st.Ok) (ho : st.Owned (st.headers ++ dead)) :
    st.initMap.entries = [] ∧ st.initMap.readMap = [] ∧ st.initMap.Owned (st.initMap.headers ++ (st.headers ++ dead)) := by
  have hb0 : BlocksOk { st with count := 0, capacity := 16 } := h.blocks.congr rfl rfl rfl
  have hb1 := hb0.withBlock (k := .keys) (c := 16) (by omega)
  have hle : st.Le st.initMap := ⟨fun hb => hb1.le_withBlock.blk (hb0.le_withBlock.blk hb), fun _ => Nat.le_refl _⟩
  have hsame : st.SameArrays st.initMap := by
    refine ⟨fun hb _ w => ?_, fun _ => rfl⟩
    exact word_initMap_ne (h.blocks.ne_used hb) (hb1.ne_used (hb0.le_withBlock.blk hb))
  exact ⟨rfl, rfl, ho.mono hsame fun _ _ hl => hl.mono hle⟩

/-! ### Patches -/

structure PatchRoomEffect (st : Store) (i : Nat) (rest : List PatchListShm) (st' : Store) : Prop where
  map : st.SameMap st'
  key : ∀ i, st'.word st.keysOff i = st.word st.keysOff i
  list : ∀ i', i' ≠ i → st'.listAt st.valuesOff i' = st.listAt st.valuesOff i'
  str : ∀ {off}, st.StrOk off → st'.str off = st.str off
  count : (st'.listAt st.valuesOff i).patchCount = (st.listAt st.valuesOff i).patchCount
  self : st'.readList (st'.listAt st.valuesOff i) = st.readList (st.listAt st.valuesOff i)
  other : ∀ l ∈ rest, st'.readList l = st.readList l
  owned : st'.Owned (st'.listAt st.valuesOff i :: rest)
  refusals : st'.refusals = st.refusals

theorem Room.patches_effect {rest} (hr : st.Room .patches st.valuesOff (3 * i) st') (h : st.Ok)
    (hi : i < st.capacity) (ho : st.Owned (st.listAt st.valuesOff i :: rest)) : st.PatchRoomEffect i rest st' := by
  have hle := hr.le h
  cases hr with
  | fits => exact ⟨⟨rfl, rfl, rfl, rfl⟩, fun _ => rfl, fun _ _ => rfl, fun _ => rfl, rfl, rfl, fun _ _ => rfl, ho, rfl⟩
  | moved hfull =>
    have hu := h.blocks.ne_used h.values
    have hself : (st.movedArray .patches st.valuesOff (3 * i)).listAt st.valuesOff i =
        st.movedList (st.listAt st.valuesOff i) := by
      rw [listAt_movedArray hu, if_pos ⟨rfl, rfl⟩]
      rfl
    refine ⟨⟨rfl, rfl, rfl, rfl⟩, ?_, ?_, fun _ => rfl, ?_, ?_, ?_, ?_, rfl⟩
    · intro i'
      exact word_movedArray_ne (ne_of_kind h.keys h.values (by decide)) (h.blocks.ne_used h.keys)
    · intro i' hne
      rw [listAt_movedArray hu, if_neg (fun hc => hne hc.2)]
    · rw [hself]
      rfl
    · rw [hself]
      exact readList_movedPatches h h.values hi hfull
    · intro l hl
      exact (sameArrays_movedArray h h.values).readList h (ho.ok l (mem_cons_of_mem _ hl))
    · rw [hself]
      exact ho.movedPatches h h.values hi hfull hle

theorem addPatch_effect (h : st.Ok) (ho : st.Owned (st.headers ++ dead)) (he : st.entries[i]? = some (k, l))
    (file find : CString) (hf : (st.addPatch st.valuesOff i file find).1.refusals = st.refusals) :
    ∃ st' l', st.addPatch st.valuesOff i file find = (st', some (l'.patchesOff, l.patchCount)) ∧ st'.Ok ∧
      st.SameMap st' ∧ st'.entries = st.entries.set i (k, l') ∧ l'.patchCount = l.patchCount + 1 ∧
      st'.readMap = st.readMap.set i (k, st.readList l ++ [⟨file, find, []⟩]) ∧ st'.Owned (st'.headers ++ dead) := by
  obtain ⟨hic, e2⟩ := h.entry_slot he
  have ho' : st.Owned (st.listAt st.valuesOff i :: (st.headers.eraseIdx i ++ dead)) := by
    rw [← e2]
    exact ho.perm (headers_perm he)
  have hh : st.Head .patches st.valuesOff (3 * i) := .list h.values hic
  rcases addPatch_cases h hh file find with ⟨-, -, e3⟩ | ⟨st1, hr, e3⟩
  · rw [e3] at hf
    simp [refuse] at hf
  · have hle := hr.le h
    have h1 := hr.ok h hh
    have hlt := hr.lt h hh
    have hx := hr.patches_effect h hic ho'
    have hb1 := hle.blk h.values
    obtain ⟨fo, no, hs⟩ := hr.append h hh file find
    rw [e3] at hf ⊢
    generalize st1.appendElem .patches st.valuesOff (3 * i) file find = st' at hs hf ⊢
    have hlb : st1.blk (st1.listAt st.valuesOff i).patchesOff =
        some (.patches, (st1.listAt st.valuesOff i).patchCapacity) :=
      (h1.lists hb1 hic).blk hlt
    have hmap := hx.map.trans hs.map
    have hkey : ∀ i < st.count, st'.word st.keysOff i = st.word st.keysOff i := by
      intro i' _
      have hk1 := hle.blk h.keys
      rw [hs.word_ne (ne_of_kind hk1 hb1 (by decide)) (ne_of_kind hk1 hlb (by decide))]
      exact hx.key i'
    have hlist : ∀ i' < st.count, st'.listAt st.valuesOff i' =
        if i' = i then countedList (st1.listAt st.valuesOff i) else st.listAt st.valuesOff i' := by
      intro i' _
      rw [hs.listAt (ne_of_kind hb1 hlb (by decide))]
      by_cases hii : i' = i
      · rw [if_pos ⟨rfl, hii⟩, if_pos hii]
      · rw [if_neg (fun hc => hii hc.2), if_neg hii]
        exact hx.list i' hii
    have hent := entries_set h hmap hkey (fun hoff => by rw [hs.str (hoff.mono hle), hx.str hoff]) he hlist
    have hoth : ∀ m ∈ st.headers.eraseIdx i ++ dead, st'.readList m = st.readList m := by
      intro m hm
      rw [← hx.other m hm]
      have hmem := mem_cons_of_mem (st1.listAt st.valuesOff i) hm
      refine hs.readList_other h1 hb1 hlb (hx.owned.ok m hmem) fun hpos => ?_
      have hne0 := h1.blocks.ne_zero hlb
      exact ((pairwise_cons.1 hx.owned.lists).1 m hm).resolve_left hne0 |>.symm
    refine ⟨st', countedList (st1.listAt st.valuesOff i), ?_, hs.ok, hmap, hent, ?_, ?_, ?_⟩
    · rw [hx.count, ← e2]
      rfl
    · show (st1.listAt st.valuesOff i).patchCount + 1 = _
      rw [hx.count, ← e2]
    · rw [readMap_set he hent, hs.readList_self h1 hb1 hic hlt (hf.trans hx.refusals.symm), hx.self, ← e2]
      intro i' e' hne he'
      exact hoth _ (mem_append_left _ (mem_eraseIdx_headers hne he'))
    · exact (hx.owned.appendPatch hs h1 hb1 hic hlt).perm (headers_set_perm he hent)

/-! ### Transforms -/

private theorem entries_of_words (h : st.Ok) (hmap : st.SameMap st') (hstr : ∀ {off}, st.StrOk off → st'.str off = st.str off)
    (hword : ∀ {b c w}, st.blk b = some (.keys, c) ∨ st.blk b = some (.values, c) → st'.word b w = st.word b w) :
    st'.entries = st.entries := by
  refine entries_congr h hmap (fun i _ => hword (.inl h.keys)) hstr fun i _ => ?_
  simp only [listAt, hword (.inr h.values)]

theorem Room.transforms_effect {hs} (hr : st.Room .transforms b (5 * j + 2) st') (h : st.Ok) (ho : st.Owned hs)
    (hb : st.blk b = some (.patches, c)) (hj : j < st.init b) :
    st.SameMap st' ∧ st'.entries = st.entries ∧ st'.Owned hs ∧ (∀ l ∈ hs, st'.readList l = st.readList l) ∧
      st'.refusals = st.refusals ∧ st'.str = st.str := by
  have hle := hr.le h
  cases hr with
  | fits => exact ⟨⟨rfl, rfl, rfl, rfl⟩, rfl, ho, fun _ _ => rfl, rfl, rfl⟩
  | moved hfull =>
    refine ⟨⟨rfl, rfl, rfl, rfl⟩, ?_, ho.movedTransforms h hle, ?_, rfl, rfl⟩
    · refine entries_of_words h ⟨rfl, rfl, rfl, rfl⟩ (fun _ => rfl) ?_
      intro b' c' w hb'
      rcases hb' with hb' | hb'
      · exact word_movedArray_ne (ne_of_kind hb' hb (by decide)) (h.blocks.ne_used hb')
      · exact word_movedArray_ne (ne_of_kind hb' hb (by decide)) (h.blocks.ne_used hb')
    · intro l hl
      exact readList_movedTransforms h hb hj hfull (ho.ok l hl)

theorem addTransform_effect {hs} (h : st.Ok) (ho : st.Owned hs) (hl : l ∈ hs) (hj : j < l.patchCount)
    (mtch replace : CString) (hf : (st.addTransform l.patchesOff j mtch replace).refusals = st.refusals) :
    ∃ st', st.addTransform l.patchesOff j mtch replace = st' ∧ st'.Ok ∧ st.SameMap st' ∧ st'.entries = st.entries ∧
      st'.Owned hs ∧ ∀ l' ∈ hs, st'.readList l' = if l'.patchesOff = l.patchesOff then
        (st.readList l').modify j fun p => p.addTransform mtch replace else st.readList l' := by
  obtain ⟨hb, hj'⟩ := (ho.ok l hl).slot hj
  have hh : st.Head .transforms l.patchesOff (5 * j + 2) := .patch hb hj'
  unfold addTransform at hf ⊢
  rcases addElem_cases h hh mtch replace with ⟨-, -, e⟩ | ⟨st1, hr, e⟩
  · rw [e] at hf
    simp [refuse] at hf
  · have hle := hr.le h
    have h1 := hr.ok h hh
    have hlt := hr.lt h hh
    have hb1 := hle.blk hb
    obtain ⟨hmap, hent, ho1, hread, href, hstr⟩ := hr.transforms_effect h ho hb hj'
    obtain ⟨mo, ro, hs'⟩ := hr.append h hh mtch replace
    rw [e] at hf ⊢
    have hblk : st1.blk (st1.patchAt l.patchesOff j).transformsOff =
        some (.transforms, (st1.patchAt l.patchesOff j).transformCapacity) :=
      (h1.heads (hh.mono hle)).blk hlt
    refine ⟨_, rfl, hs'.ok, hmap.trans hs'.map, ?_, ho1.appendTransform hs' hblk, ?_⟩
    · rw [← hent]
      refine entries_of_words h1 hs'.map hs'.str ?_
      intro b' c' w hb'
      rcases hb' with hb' | hb'
      · exact hs'.word_ne (ne_of_kind hb' hb1 (by decide)) (ne_of_kind hb' hblk (by decide))
      · exact hs'.word_ne (ne_of_kind hb' hb1 (by decide)) (ne_of_kind hb' hblk (by decide))
    · intro l' hl'
      rw [hs'.readList_modify ho1 h1 hlt (hf.trans href.symm) hl rfl hj hl', hread l' hl']

end Store

end CloudeLoader
