import CloudeLoader.Arena.Effects

/-!
# The map a store holds

`Store.Holds st dead m` says that the sound store `st`, in which no array has two owners, reads as the map `m`; `dead` are
the headers of the lists that were removed.
-/

namespace CloudeLoader

open ByteMemory InsertionMap
open List hiding keys

/-- Plugin names with the patches they registered. -/
abbrev PatchMap := InsertionMap CString (List Patch)

namespace Store

structure Holds (st : Store) (dead : List PatchListShm) (m : PatchMap) : Prop where
  ok : st.Ok
  owned : st.Owned (st.headers ++ dead)
  map : st.readMap = m.entries

def header (st : Store) (key : CString) : PatchListShm :=
  match st.index key with
  | none => ⟨0, 0, 0⟩
  | some i => st.listAt st.valuesOff i

variable {st : Store} {dead : List PatchListShm} {m : PatchMap} {i j : Nat} {k : CString} {l : PatchListShm}

section

variable (h : st.Holds dead m)

include h

theorem Holds.keys_eq : st.entries.map Prod.fst = m.keys := by
  unfold keys
  rw [← h.map, readMap, map_map]
  rfl

theorem Holds.entry (he : st.entries[i]? = some (k, l)) :
    m.entries[i]? = some (k, st.readList l) := by
  rw [← h.map, readMap, getElem?_map, he]
  rfl

theorem Holds.entry_unique {i' : Nat} {l'} (he : st.entries[i]? = some (k, l))
    (he' : st.entries[i']? = some (k, l')) : i = i' ∧ l = l' := by
  obtain rfl := m.index_unique (h.entry he) (h.entry he')
  cases he.symm.trans he'
  exact ⟨rfl, rfl⟩

theorem Holds.index_eq_some (he : st.entries[i]? = some (k, l)) : st.index k = some i := by
  cases hidx : st.index k with
  | none => exact absurd (mem_map_of_mem (mem_of_getElem? he)) (index_eq_none hidx)
  | some i' =>
    obtain ⟨l', he'⟩ := Store.index_eq_some hidx
    rw [(h.entry_unique he he').1]

theorem Holds.header_eq (he : st.entries[i]? = some (k, l)) : st.header k = l := by
  simp only [header, h.index_eq_some he, (h.ok.entry_slot he).2]

theorem Holds.mem_keys (hidx : st.index k = some i) : k ∈ m.keys := by
  obtain ⟨l, he⟩ := Store.index_eq_some hidx
  rw [← h.keys_eq]
  exact mem_map_of_mem (mem_of_getElem? he)

theorem Holds.notMem_keys (hidx : st.index k = none) : k ∉ m.keys := by
  rw [← h.keys_eq]
  exact index_eq_none hidx

/-! ### The operations -/

theorem Holds.initMap : st.initMap.Holds (st.headers ++ dead) .empty := by
  obtain ⟨-, hmap, hown⟩ := initMap_effect h.ok h.owned
  exact ⟨Ok.initMap h.ok.blocks h.ok.elems h.ok.heads, hown, hmap⟩

theorem Holds.addKey (key : CString) (hr : (st.addKey key).1.refusals = st.refusals) :
    ∃ st' i, st.addKey key = (st', some i) ∧ st'.Holds dead (m.addKey key []) ∧
      st'.entries[i]? = some (key, st.header key) ∧
      (∀ (i' : Nat) e, st.entries[i']? = some e → st'.entries[i']? = some e) ∧
      (key ∈ m.keys ∨ st.count < st.capacity → st'.valuesOff = st.valuesOff) := by
  cases hidx : st.index key with
  | some i =>
    obtain ⟨l, he⟩ := Store.index_eq_some hidx
    refine ⟨st, i, addKey_of_index hidx, ?_, by rw [h.header_eq he, he], fun _ _ he' => he', fun _ => rfl⟩
    rw [addKey_of_mem (h.mem_keys hidx)]
    exact h
  | none =>
    have hnew := h.notMem_keys hidx
    obtain ⟨st', e, hok, hent, hmap, hown, hval⟩ := addKey_new h.ok h.owned hidx hr
    refine ⟨st', st.count, e, ⟨hok, hown, ?_⟩, ?_, ?_, ?_⟩
    · rw [hmap, h.map, addKey_entries hnew]
    · rw [hent, ← entries_length]
      simp [header, hidx]
    · intro i' e' he'
      rw [hent, List.getElem?_append_left (List.getElem?_eq_some_iff.1 he').1]
      exact he'
    · rintro (hmem | hlt)
      · exact absurd hmem hnew
      · exact hval hlt

theorem Holds.remove_of_none (hidx : st.index k = none) :
    st.remove k = st ∧ m.erase k = m :=
  ⟨by simp only [Store.remove, hidx], erase_of_notMem (h.notMem_keys hidx)⟩

theorem Holds.remove (he : st.entries[i]? = some (k, l)) :
    (st.remove k).Holds (l :: dead) (m.erase k) ∧ (st.remove k).entries = st.entries.eraseIdx i := by
  have hidx := h.index_eq_some he
  obtain ⟨hent, hmap, hown⟩ := remove_effect h.ok h.owned hidx he
  refine ⟨⟨(h.ok.remove hidx).ok, hown, ?_⟩, hent⟩
  rw [hmap, h.map, erase_entries (h.entry he)]

theorem Holds.addPatch (he : st.entries[i]? = some (k, l)) {file find}
    (hr : (st.addPatch st.valuesOff i file find).1.refusals = st.refusals) :
    ∃ st' l', st.addPatch st.valuesOff i file find = (st', some (l'.patchesOff, l.patchCount)) ∧
      st'.Holds dead (m.modify k (· ++ [⟨file, find, []⟩])) ∧ st.SameMap st' ∧
      st'.entries = st.entries.set i (k, l') ∧ l'.patchCount = l.patchCount + 1 := by
  obtain ⟨st', l', e, hok, hsm, hent, hcnt, hmap, hown⟩ := addPatch_effect h.ok h.owned he file find hr
  refine ⟨st', l', e, ⟨hok, hown, ?_⟩, hsm, hent, hcnt⟩
  rw [hmap, h.map, modify_entries (h.entry he)]

end

private theorem Holds.of_entries {st' : Store} {m' : PatchMap} (hok : st'.Ok) (hent : st'.entries = st.entries)
    (hown : st'.Owned (st.headers ++ dead)) (hmap : st'.readMap = m'.entries) : st'.Holds dead m' := by
  refine ⟨hok, ?_, hmap⟩
  have hhdr : st'.headers = st.headers := by rw [headers, hent, headers]
  rw [hhdr]
  exact hown

theorem Holds.addTransform (h : st.Holds dead m) (he : st.entries[i]? = some (k, l)) (hj : j < l.patchCount)
    {mtch replace : CString} (hr : (st.addTransform l.patchesOff j mtch replace).refusals = st.refusals) :
    ∃ st', st.addTransform l.patchesOff j mtch replace = st' ∧
      st'.Holds dead (m.modify k fun ps => ps.modify j fun p => p.addTransform mtch replace) ∧ st.SameMap st' ∧
      st'.entries = st.entries := by
  have hmem : l ∈ st.headers ++ dead :=
    mem_append_left _ (mem_map_of_mem (mem_of_getElem? he))
  obtain ⟨st', e, hok, hsm, hent, hown, hread⟩ := addTransform_effect h.ok h.owned hmem hj mtch replace hr
  refine ⟨st', e, Holds.of_entries hok hent hown ?_, hsm, hent⟩
  have hset : st'.entries = st.entries.set i (k, l) := by
    obtain ⟨hi, hget⟩ := List.getElem?_eq_some_iff.1 he
    rw [hent, ← hget, List.set_getElem_self]
  rw [readMap_set he hset, hread l hmem, if_pos rfl, h.map, modify_entries (h.entry he)]
  intro i' e' hne he'
  have hmem' : e'.2 ∈ st.headers.eraseIdx i ++ dead := mem_append_left _ (mem_eraseIdx_headers hne he')
  have ho : st.Owned (l :: (st.headers.eraseIdx i ++ dead)) := h.owned.perm (headers_perm he)
  rw [hread e'.2 (mem_append_left _ (mem_map_of_mem (mem_of_getElem? he'))),
    if_neg (ho.ne_of_slot h.ok hmem' hj).symm]

theorem Holds.addTransform_dead (h : st.Holds dead m) (hl : l ∈ dead) (hj : j < l.patchCount) {mtch replace : CString}
    (hr : (st.addTransform l.patchesOff j mtch replace).refusals = st.refusals) :
    ∃ st', st.addTransform l.patchesOff j mtch replace = st' ∧ st'.Holds dead m ∧ st.SameMap st' ∧
      st'.entries = st.entries := by
  have hmem : l ∈ st.headers ++ dead := mem_append_right _ hl
  obtain ⟨st', e, hok, hsm, hent, hown, hread⟩ := addTransform_effect h.ok h.owned hmem hj mtch replace hr
  refine ⟨st', e, Holds.of_entries hok hent hown ?_, hsm, hent⟩
  rw [← h.map, readMap, hent]
  refine map_congr_left fun e' he' => ?_
  have hmem' : e'.2 ∈ st.headers := mem_map_of_mem he'
  have hne : e'.2.patchesOff ≠ l.patchesOff := by
    have hne0 := h.ok.blocks.ne_zero ((h.owned.ok l hmem).slot hj).1
    rcases (pairwise_append.1 h.owned.lists).2.2 e'.2 hmem' l hl with h0 | hne
    · omega
    · exact hne
  rw [hread e'.2 (mem_append_left _ hmem'), if_neg hne]

end Store

/-! ### On the bytes -/

open Arena

def Arena.patchesOf (s : Arena) (key : CString) : List Patch :=
  match hashmapGet s key with
  | none => []
  | some list => s.readList (patchListAt s.mem list.addr)

structure Arena.Holds (s : Arena) (st : Store) (dead : List PatchListShm) (m : PatchMap) : Prop where
  lay : Lay s st
  store : st.Holds dead m

variable {s : Arena} {st : Store} {dead : List PatchListShm} {m : PatchMap} {i j : Nat} {k key : CString} {l : PatchListShm}

theorem Arena.holds_initArena (mem : Mem) : (initArena mem).Holds (Store.initial mem) [] .empty :=
  ⟨lay_initArena mem, ok_initial mem, Store.owned_nil, rfl⟩

section

variable (h : s.Holds st dead m)

include h

theorem Arena.Holds.hashmapGet_eq (he : st.entries[i]? = some (k, l)) :
    hashmapGet s k = some (listPtr st.valuesOff i) := by
  rw [h.lay.hashmapGet_eq h.store.ok, h.store.index_eq_some he]
  rfl

theorem Arena.Holds.patchesOf_eq (key : CString) : s.patchesOf key = (m.get key).getD [] := by
  unfold Arena.patchesOf
  cases hidx : st.index key with
  | none =>
    rw [h.lay.hashmapGet_eq h.store.ok, hidx, get_of_notMem (h.store.notMem_keys hidx)]
    rfl
  | some i =>
    obtain ⟨l, he⟩ := Store.index_eq_some hidx
    obtain ⟨hic, e⟩ := h.store.ok.entry_slot he
    rw [h.hashmapGet_eq he, get_of_getElem? (h.store.entry he)]
    simp only [Option.getD_some, h.lay.listAt_eq h.store.ok.values hic, e]
    exact h.lay.readList_eq h.store.ok (h.store.ok.lists h.store.ok.values hic)

theorem Arena.Holds.hashmapAddKey (hlen : key.length < 2 ^ 31)
    (hr : (hashmapAddKey s key).1.refusals = s.refusals) :
    ∃ s' st' i, hashmapAddKey s key = (s', some (listPtr st'.valuesOff i)) ∧ st.addKey key = (st', some i) ∧
      s'.Holds st' dead (m.addKey key []) ∧ st'.entries[i]? = some (key, st.header key) ∧
      (∀ (i' : Nat) e, st.entries[i']? = some e → st'.entries[i']? = some e) ∧
      (key ∈ m.keys ∨ st.count < st.capacity → st'.valuesOff = st.valuesOff) := by
  obtain ⟨s', st', r, e, e', hlay⟩ := h.lay.hashmapAddKey h.store.ok hlen
  have href : (st.addKey key).1.refusals = st.refusals := by
    rw [e] at hr
    rw [e', ← hlay.refusals, hr, h.lay.refusals]
  obtain ⟨st₂, i, e₂, hrest⟩ := h.store.addKey key href
  cases e'.symm.trans e₂
  exact ⟨s', st', i, e, e', ⟨hlay, hrest.1⟩, hrest.2⟩

theorem Arena.Holds.hashmapRemove_absent (hidx : st.index key = none) :
    (hashmapRemove s key).Holds st dead (m.erase key) := by
  have hlay := h.lay.hashmapRemove h.store.ok key
  obtain ⟨e, e'⟩ := h.store.remove_of_none hidx
  rw [e] at hlay
  rw [e']
  exact ⟨hlay, h.store⟩

theorem Arena.Holds.hashmapRemove (he : st.entries[i]? = some (key, l)) :
    (hashmapRemove s key).Holds (st.remove key) (l :: dead) (m.erase key) ∧
      (st.remove key).entries = st.entries.eraseIdx i ∧ (st.remove key).valuesOff = st.valuesOff := by
  obtain ⟨hhol, hent⟩ := h.store.remove he
  exact ⟨⟨h.lay.hashmapRemove h.store.ok key, hhol⟩, hent, (h.store.ok.remove (h.store.index_eq_some he)).valuesOff⟩

theorem Arena.Holds.hashmapRemove_any (key : CString) :
    ∃ st' dead', (CloudeLoader.hashmapRemove s key).Holds st' dead' (m.erase key) ∧ st'.used = st.used ∧
      (CloudeLoader.hashmapRemove s key).refusals = s.refusals := by
  cases hidx : st.index key with
  | none =>
    have hs := h.hashmapRemove_absent hidx
    exact ⟨st, dead, hs, rfl, hs.lay.refusals.trans h.lay.refusals.symm⟩
  | some i =>
    obtain ⟨l, he⟩ := Store.index_eq_some hidx
    have hs := (h.hashmapRemove he).1
    have hspec := h.store.ok.remove hidx
    exact ⟨_, _, hs, hspec.used, hs.lay.refusals.trans (hspec.refusals.trans h.lay.refusals.symm)⟩

theorem Arena.Holds.patchlistAdd (he : st.entries[i]? = some (k, l)) {file find}
    (hf : file.length < 2 ^ 31) (hn : find.length < 2 ^ 31)
    (hr : (patchlistAdd s (listPtr st.valuesOff i) file find).1.refusals = s.refusals) :
    ∃ s' st' l', patchlistAdd s (listPtr st.valuesOff i) file find = (s', some (patchPtr l'.patchesOff l.patchCount)) ∧
      (st.addPatch st.valuesOff i file find).1 = st' ∧ s'.Holds st' dead (m.modify k (· ++ [⟨file, find, []⟩])) ∧
      st'.valuesOff = st.valuesOff ∧ st'.entries = st.entries.set i (k, l') ∧ l'.patchCount = l.patchCount + 1 := by
  have hic := (h.store.ok.entry_slot he).1
  obtain ⟨s', st', r, e, e', hlay⟩ := h.lay.patchlistAdd h.store.ok h.store.ok.values hic hf hn
  have href : (st.addPatch st.valuesOff i file find).1.refusals = st.refusals := by
    rw [e] at hr
    rw [e', ← hlay.refusals, hr, h.lay.refusals]
  obtain ⟨st₂, l', e₂, hhol, hsm, hent, hcnt⟩ := h.store.addPatch he href
  cases e'.symm.trans e₂
  exact ⟨s', st', l', e, by rw [e'], ⟨hlay, hhol⟩, hsm.2.1, hent, hcnt⟩

theorem Arena.Holds.patchAddTransform (he : st.entries[i]? = some (k, l))
    (hj : j < l.patchCount) {mtch replace} (hm : mtch.length < 2 ^ 31) (hp : replace.length < 2 ^ 31)
    (hr : (patchAddTransform s (patchPtr l.patchesOff j) mtch replace).refusals = s.refusals) :
    ∃ st', st.addTransform l.patchesOff j mtch replace = st' ∧
      (patchAddTransform s (patchPtr l.patchesOff j) mtch replace).Holds st' dead
        (m.modify k fun ps => ps.modify j fun p => p.addTransform mtch replace) ∧
      st'.valuesOff = st.valuesOff ∧ st'.entries = st.entries := by
  have hlist := h.store.ok.entry_listOk (mem_of_getElem? he)
  obtain ⟨hb, hj'⟩ := hlist.slot hj
  have hlay := h.lay.patchAddTransform h.store.ok hb hj' hm hp
  have href : (st.addTransform l.patchesOff j mtch replace).refusals = st.refusals := by
    rw [← hlay.refusals, hr, h.lay.refusals]
  obtain ⟨st', e, hhol, hsm, hent⟩ := h.store.addTransform he hj href
  rw [e] at hlay
  exact ⟨st', e, ⟨hlay, hhol⟩, hsm.2.1, hent⟩

end

end CloudeLoader
