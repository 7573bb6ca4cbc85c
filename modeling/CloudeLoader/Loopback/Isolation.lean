import CloudeLoader.Loopback.Selection

/-!
# Malformed patches of another plugin

The file patterns of all plugins go into one set, and the pool is built for all plugins at once, so one pattern that does
not compile or one name that is too long ends the request for all of them.
-/

namespace CloudeLoader

open ByteMemory Arena SortedFold Loops InsertionMap Item Option
open List hiding keys

/-! ### Reading an arena that holds a map -/

def Item.ofPatch (name : CString) (p : Patch) : Item :=
  ⟨name, p.file, p.find, p.transforms.map fun t => (some t.1, some t.2)⟩

def PatchMap.items (m : PatchMap) : List Item := m.entries.flatMap fun e => e.2.map (ofPatch e.1)

section Held

variable {s : Arena} {st : Store} {dead : List PatchListShm} {m : PatchMap} {x y : Nat × Nat}

section

variable (h : s.Holds st dead m)

include h

theorem Arena.Holds.listHeader_eq {i} (hi : i < s.count) :
    s.listHeader i = st.listAt st.valuesOff i := by
  rw [listHeader, h.lay.valuesOff]
  rw [h.lay.count] at hi
  exact h.lay.listAt_eq h.store.ok.values (Nat.lt_of_lt_of_le hi h.store.ok.count_le)

theorem Arena.Holds.slot_blk (hx : s.Registered x) :
    st.blk (s.listHeader x.1).patchesOff = some (.patches, (s.listHeader x.1).patchCapacity) ∧
      x.2 < st.init (s.listHeader x.1).patchesOff ∧ x.2 < (s.listHeader x.1).patchCapacity := by
  obtain ⟨hi, h0, hj⟩ := hx
  have hi' : x.1 < st.capacity := by
    rw [h.lay.count] at hi
    exact Nat.lt_of_lt_of_le hi h.store.ok.count_le
  have hlist := h.store.ok.lists h.store.ok.values hi'
  rw [← h.listHeader_eq hi] at hlist
  rcases hlist with ⟨hnull, -⟩ | ⟨hblk, hcnt⟩
  · exact absurd hnull h0
  · have := h.store.ok.blocks.init_le hblk
    exact ⟨hblk, by omega, by omega⟩

theorem Arena.Holds.slotPatch_eq (hx : s.Registered x) :
    s.slotPatch x = st.patchAt (s.listHeader x.1).patchesOff x.2 := by
  obtain ⟨hblk, -, hlt⟩ := h.slot_blk hx
  exact h.lay.patchAt_eq hblk hlt

theorem Arena.Holds.transformCount_lt (hx : s.Registered x) :
    (s.slotPatch x).transformCount < 2 ^ 31 := by
  obtain ⟨hblk, hinit, -⟩ := h.slot_blk hx
  rw [h.slotPatch_eq hx]
  rcases (h.store.ok.patches hblk hinit).2.2 with ⟨-, h0, -⟩ | ⟨htr, hcnt⟩
  · omega
  · have hend := h.lay.blk_end htr
    have hle := h.lay.used_le
    have := h.store.ok.blocks.init_le htr
    simp only [Kind.stride, shmIpcSize] at hend hle
    omega

end

theorem transformEntries_eq (s : Arena) {p} (hlt : p.transformCount < 2 ^ 31) :
    transformEntries s (transformData s p) = (s.readPatch p).transforms.map fun t => (some t.1, some t.2) := by
  have hcnt : (p.transformCount : Int).bmod (2 ^ 32) = p.transformCount := Int.bmod_eq_of_le (by omega) (by omega)
  unfold transformEntries transformData readPatch
  rw [hcnt, Int.toNat_natCast, List.map_map]
  refine List.map_congr_left fun t ht => ?_
  simp only [List.getElem?_map, List.getElem?_range (List.mem_range.1 ht), map_some, Function.comp,
    readTransform]

theorem Arena.Holds.items_eq (h : s.Holds st dead m) : s.items = m.items := by
  have hreg : s.registered.map (fun e => ofPatch e.1 e.2) = m.items := by
    rw [registered_eq h, List.map_flatMap]
    refine List.flatMap_congr fun e _ => ?_
    rw [List.map_map]
    rfl
  rw [← hreg, Arena.items, registered, List.map_map]
  refine List.map_congr_left fun x hx => ?_
  have htrn := transformEntries_eq s (h.transformCount_lt (mem_slots.1 hx))
  simp only [Function.comp, slotItem, ofPatch, htrn]
  rfl

end Held

/-! ### When the pool is built -/

section Pool

variable {s : Arena} {st : Store} {dead : List PatchListShm} {m : PatchMap} {p : Pools} {files : List (Nat × Nat)}

end Pool

/-! ### What may be served -/

/-- What `find_file_matches` may serve when nothing fails outside of the program. -/
def Outcome (re : RE2) (s : Arena) (path content out : List UInt8) : Prop :=
  ∃ order sorted, (∀ p, getFileRegexPool (fun _ => true) s = some p → Choices re s p content order sorted) ∧
    (findFileMatches re .plenty s path content order sorted).2 = out

section Outcomes

variable {re : RE2} {s : Arena} {p : Pools} {path content out : List UInt8} {order sorted : List Nat} {xs : List Item}

theorem findFileMatches_eq (h : Reaches re .plenty s content p) (hc : Choices re s p content order sorted) :
    (findFileMatches re .plenty s path content order sorted).2 = applyAll re (s.chosen order sorted) content := by
  unfold findFileMatches
  by_cases hne : order = []
  · subst hne
    have hsor : sorted = [] := length_eq_zero_iff.1 (by simpa using hc.perm.length_eq)
    subst hsor
    split
    · rfl
    · rename_i q ids e
      obtain ⟨hq, rfl⟩ := selectPatches_ok e
      rw [handleFilePatches_eq hq.pool (by simp) hq.size]
  · rw [h.selectPatches_eq hc hne]
    dsimp only
    rw [handleFilePatches_eq h.pool (hc.lt_length h.pool) h.size]

theorem exists_choices (e : getFileRegexPool (fun _ => true) s = some p) (hperm : xs.Perm (s.selected re content))
    (hord : ByName xs) : ∃ order sorted, Choices re s p content order sorted ∧ s.chosen order sorted = xs := by
  rw [Arena.selected, ← filterMap_getElem?_filter] at hperm
  obtain ⟨order, horde, rfl⟩ := exists_perm_filterMap (fun i hi => by
    have := mem_range.1 (mem_of_mem_filter hi)
    simp [this]) hperm
  refine ⟨order, range order.length, ?_, by rw [Arena.chosen, filterMap_getElem?_range]⟩
  refine choices_of_items e horde (List.Perm.refl _) ?_
  have hitm : order.Pairwise fun i j => ∀ x, s.items[i]? = some x → ∀ y, s.items[j]? = some y →
      nameKey x.name ≤ nameKey y.name := pairwise_filterMap.1 hord
  rw [← filterMap_getElem?_range order, pairwise_filterMap] at hitm
  refine hitm.imp_of_mem fun {a b} ha hb hab => ?_
  have hget : ∀ {k : Nat}, k ∈ range order.length → ∃ i x, order[k]? = some i ∧ s.items[i]? = some x := by
    intro k hk
    have hk := mem_range.1 hk
    have hmem := horde.subset (getElem_mem hk)
    have hlt := mem_range.1 (mem_of_mem_filter hmem)
    exact ⟨_, _, getElem?_eq_getElem hk, getElem?_eq_getElem hlt⟩
  obtain ⟨i, x, hi, hx⟩ := hget ha
  obtain ⟨j, y, hj, hy⟩ := hget hb
  refine (nameLess_eq_false ?_ ?_).2 (hab i hi j hj x hx y hy)
  · rw [hi, bind_some, hx, map_some]
  · rw [hj, bind_some, hy, map_some]

theorem Reaches.outcome_iff (h : Reaches re .plenty s content p) :
    Outcome re s path content out ↔ ∃ xs, xs.Perm (s.selected re content) ∧ ByName xs ∧ applyAll re xs content = out := by
  constructor
  · rintro ⟨order, sorted, hc, rfl⟩
    have hc := hc p h.pool
    exact ⟨s.chosen order sorted, hc.chosen_perm h.pool, hc.chosen_byName h.pool, (findFileMatches_eq h hc).symm⟩
  · rintro ⟨xs, hperm, hord, rfl⟩
    obtain ⟨order, sorted, hc, rfl⟩ := exists_choices h.pool hperm hord
    refine ⟨order, sorted, fun q hq => ?_, findFileMatches_eq h hc⟩
    obtain rfl : p = q := some.inj (h.pool.symm.trans hq)
    exact hc

theorem outcome_exists (re : RE2) (s : Arena) (path content : List UInt8) : ∃ out, Outcome re s path content out := by
  cases e : getFileRegexPool (fun _ => true) s with
  | none => exact ⟨_, [], [], fun p hp => by simp [e] at hp, rfl⟩
  | some p =>
    obtain ⟨order, sorted, hc, -⟩ := exists_choices e (declaredOrder_perm (s.selected re content)) (declaredOrder_byName _)
    exact ⟨_, order, sorted, fun q hq => by rw [e] at hq; rwa [← some.inj hq], rfl⟩

theorem outcome_iff_of_not_reaches (h : ∀ p, ¬ Reaches re .plenty s content p) :
    Outcome re s path content out ↔ out = content := by
  have hser : ∀ order sorted, (findFileMatches re .plenty s path content order sorted).2 = content := by
    intro order sorted
    unfold findFileMatches
    split
    · rfl
    · rename_i q ids e
      exact absurd (selectPatches_ok e).1 (h q)
  constructor
  · rintro ⟨order, sorted, -, rfl⟩
    exact hser order sorted
  · rintro rfl
    obtain ⟨out', order, sorted, hc, -⟩ := outcome_exists re s path out
    exact ⟨order, sorted, hc, hser order sorted⟩

end Outcomes

/-! ### A plugin with malformed patches -/

def Patch.valid (re : RE2) (x : Patch) : Bool := re.ok x.file && re.ok x.find && x.transforms.all fun t => re.ok t.1

def PatchMap.extend (m : PatchMap) (q : CString) (ps : List Patch) : PatchMap := m.addKey q ps

section Isolation

variable {re : RE2} {m : PatchMap} {q : CString} {ps : List Patch}

/-- A patch of another plugin, or one whose patterns compile. -/
def Item.good (re : RE2) (q : CString) (x : Item) : Bool :=
  decide (x.name ≠ q) || (re.ok x.file && re.ok x.find && x.transforms.all fun t => t.1.all re.ok)

variable {s₁ s₂ : Arena} {st₁ st₂ : Store} {dead₁ dead₂ : List PatchListShm} {content : List UInt8}

end Isolation

end CloudeLoader
