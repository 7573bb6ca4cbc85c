import CloudeLoader.Arena.Client
import CloudeLoader.Lib.InsertionMap

/-!
# What the arena holds

The arena is a map from plugin names to lists of patches, in the order in which the plugins were added.
-/

namespace CloudeLoader

open ByteMemory Arena List

structure Patch where
  file : CString
  find : CString
  transforms : List (CString × CString)
  deriving DecidableEq

def Patch.addTransform (p : Patch) (mtch replace : CString) : Patch :=
  { p with transforms := p.transforms ++ [(mtch, replace)] }

/-! ### From the bytes -/

namespace Arena

def readTransform (s : Arena) (t : TransformShm) : CString × CString := (s.cstrAt t.matchOff, s.cstrAt t.replaceOff)

def readPatch (s : Arena) (p : PatchShm) : Patch where
  file := s.cstrAt p.fileOff
  find := s.cstrAt p.findOff
  transforms := (range p.transformCount).map fun t => s.readTransform (transformAt s.mem (p.transformsOff + t * 8))

def readList (s : Arena) (l : PatchListShm) : List Patch :=
  (range l.patchCount).map fun j => s.readPatch (patchAt s.mem (l.patchesOff + j * 20))

/-- The patches of every plugin, read from the bytes of the arena. -/
def readMap (s : Arena) : List (CString × List Patch) :=
  (range s.count).map fun i =>
    (s.cstrAt (s.load (s.keysOff + i * 4)), s.readList (patchListAt s.mem (s.valuesOff + i * 12)))

end Arena

/-! ### From the store -/

namespace Store

def readTransform (st : Store) (t : TransformShm) : CString × CString := (st.str t.matchOff, st.str t.replaceOff)

def readPatch (st : Store) (p : PatchShm) : Patch where
  file := st.str p.fileOff
  find := st.str p.findOff
  transforms := (range p.transformCount).map fun t => st.readTransform (st.transformAt p.transformsOff t)

def readList (st : Store) (l : PatchListShm) : List Patch :=
  (range l.patchCount).map fun j => st.readPatch (st.patchAt l.patchesOff j)

def entries (st : Store) : List (CString × PatchListShm) :=
  (range st.count).map fun i => (st.str (st.word st.keysOff i), st.listAt st.valuesOff i)

def readMap (st : Store) : List (CString × List Patch) := st.entries.map fun e => (e.1, st.readList e.2)

end Store

variable {s : Arena} {st st' : Store} {b c i j : Nat}

theorem Lay.transformAt_eq (h : Lay s st) {t : Nat} (hb : st.blk b = some (.transforms, c)) (ht : t < c) :
    transformAt s.mem (b + t * 8) = st.transformAt b t := by
  have hword : ∀ x, x < Kind.transforms.words → _ := fun _ hx => h.elem_eq hb (by decide) ht hx
  simp only [words_transforms, Kind.stride] at hword
  have h0 := hword 0 (by omega)
  have h1 := hword 1 (by omega)
  simp only [transformAt, Store.transformAt]
  simp only [Nat.mul_zero, Nat.add_zero] at h0
  rw [h0, h1]

theorem Lay.readPatch_eq (h : Lay s st) (hok : st.Ok) {p} (hp : st.PatchOk p) : s.readPatch p = st.readPatch p := by
  obtain ⟨hfile, hfind, htr⟩ := hp
  unfold Arena.readPatch Store.readPatch
  rw [h.cstrAt_eq hfile, h.cstrAt_eq hfind]
  congr 1
  refine map_congr_left fun t ht => ?_
  have ht : t < p.transformCount := mem_range.1 ht
  obtain ⟨hb, hinit⟩ := Store.ArrayOk.slot htr ht
  obtain ⟨hm, hr⟩ := hok.transforms hb hinit
  rw [h.transformAt_eq hb (Nat.lt_of_lt_of_le hinit (hok.blocks.init_le hb))]
  simp only [Arena.readTransform, Store.readTransform, h.cstrAt_eq hm, h.cstrAt_eq hr]

theorem Lay.readList_eq (h : Lay s st) (hok : st.Ok) {l} (hl : st.ListOk l) : s.readList l = st.readList l := by
  refine map_congr_left fun j hj => ?_
  have hj : j < l.patchCount := mem_range.1 hj
  obtain ⟨hb, hinit⟩ := Store.ArrayOk.slot hl hj
  have hpat := h.patchAt_eq hb (Nat.lt_of_lt_of_le hinit (hok.blocks.init_le hb))
  simp only [patchPtr, Ptr.elem, shmPtr, Kind.stride] at hpat
  rw [hpat]
  exact h.readPatch_eq hok (hok.patches hb hinit)

theorem Lay.readMap_eq (h : Lay s st) (hok : st.Ok) : s.readMap = st.readMap := by
  unfold Arena.readMap Store.readMap Store.entries
  rw [h.count, map_map]
  refine map_congr_left fun i hi => ?_
  have hi : i < st.count := mem_range.1 hi
  have hcap := hok.count_le
  have hkey : s.load (s.keysOff + i * 4) = st.word st.keysOff i := by
    refine h.load_eq hok.keys (by decide) ?_ (by rw [h.keysOff]; omega)
    simp only [Kind.stride]
    omega
  have hlist := h.listAt_eq hok.values (show i < st.capacity by omega)
  simp only [listPtr, Ptr.elem, shmPtr, Kind.stride] at hlist
  rw [hkey, h.valuesOff, hlist, h.cstrAt_eq (hok.keyStr hi), h.readList_eq hok (hok.lists hok.values (by omega))]
  rfl

/-! ### Entries -/

namespace Store

theorem entries_length : st.entries.length = st.count := by simp [entries]

theorem getElem?_entries (hi : i < st.count) :
    st.entries[i]? = some (st.str (st.word st.keysOff i), st.listAt st.valuesOff i) := by
  simp [entries, getElem?_range hi]

theorem getElem?_entries_some {e} (h : st.entries[i]? = some e) :
    i < st.count ∧ e = (st.str (st.word st.keysOff i), st.listAt st.valuesOff i) := by
  obtain ⟨hi, -⟩ := List.getElem?_eq_some_iff.1 h
  rw [entries_length] at hi
  rw [getElem?_entries hi] at h
  injection h with e
  exact ⟨hi, e.symm⟩

theorem Ok.entry_slot (h : st.Ok) {k l} (he : st.entries[i]? = some (k, l)) :
    i < st.capacity ∧ l = st.listAt st.valuesOff i := by
  obtain ⟨hi, e⟩ := getElem?_entries_some he
  exact ⟨Nat.lt_of_lt_of_le hi h.count_le, congrArg Prod.snd e⟩

def headers (st : Store) : List PatchListShm := st.entries.map Prod.snd

theorem Ok.entry_listOk (h : st.Ok) {e} (he : e ∈ st.entries) : st.ListOk e.2 := by
  obtain ⟨i, hi⟩ := getElem?_of_mem he
  obtain ⟨hlt, rfl⟩ := getElem?_entries_some hi
  exact h.lists h.values (Nat.lt_of_lt_of_le hlt h.count_le)

theorem index_eq_some {key} (h : st.index key = some i) : ∃ l, st.entries[i]? = some (key, l) := by
  obtain ⟨hi, hkey⟩ := index_some h
  rw [getElem?_entries hi, hkey]
  exact ⟨_, rfl⟩

theorem index_eq_none {key} (h : st.index key = none) : key ∉ st.entries.map Prod.fst := by
  intro hmem
  obtain ⟨e, he, rfl⟩ := mem_map.1 hmem
  obtain ⟨i, hi⟩ := getElem?_of_mem he
  obtain ⟨hlt, rfl⟩ := getElem?_entries_some hi
  exact index_none h hlt rfl

end Store

end CloudeLoader
