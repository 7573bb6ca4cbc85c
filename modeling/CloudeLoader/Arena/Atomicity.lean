import CloudeLoader.Arena.Failure

/-!
# Which calls fail in one piece

The calls of a program on the bytes of the arena: what each needs, when it is torn, and that it is torn exactly when it
fails and changes the map all the same.  In a program none of whose calls is torn no offset is ever zero.
-/

namespace CloudeLoader

open ByteMemory Arena List Option

/-- No key, patch or transform that a reader of the map comes across has a zero offset. -/
def Arena.NoZeroOffset (s : Arena) : Prop :=
  ∀ i < s.count, s.load (s.keysOff + i * 4) ≠ 0 ∧
    let l := patchListAt s.mem (s.valuesOff + i * 12)
    ∀ j < l.patchCount,
      let p := patchAt s.mem (l.patchesOff + j * 20)
      p.fileOff ≠ 0 ∧ p.findOff ≠ 0 ∧ ∀ t < p.transformCount,
        let x := transformAt s.mem (p.transformsOff + t * 8)
        x.matchOff ≠ 0 ∧ x.replaceOff ≠ 0

theorem Lay.noZeroOffset_iff {s st} (h : Lay s st) (hok : st.Ok) : s.NoZeroOffset ↔ st.NoZeroOffset := by
  unfold Arena.NoZeroOffset Store.NoZeroOffset
  rw [h.count]
  refine forall₂_congr fun i hi => ?_
  have hic : i < st.capacity := Nat.lt_of_lt_of_le hi hok.count_le
  have hkey : s.load (s.keysOff + i * 4) = st.word st.keysOff i := by
    refine h.load_eq hok.keys (by decide) ?_ (by rw [h.keysOff]; omega)
    simp only [Kind.stride]
    omega
  have hlist : patchListAt s.mem (s.valuesOff + i * 12) = st.listAt st.valuesOff i := by
    rw [h.valuesOff]
    exact h.listAt_eq hok.values hic
  simp only [hkey, hlist]
  refine and_congr_right fun _ => forall₂_congr fun j hj => ?_
  obtain ⟨hb, hj'⟩ := (hok.lists hok.values hic).slot hj
  have hpat : patchAt s.mem ((st.listAt st.valuesOff i).patchesOff + j * 20) =
      st.patchAt (st.listAt st.valuesOff i).patchesOff j :=
    h.patchAt_eq hb (Nat.lt_of_lt_of_le hj' (hok.blocks.init_le hb))
  rw [hpat]
  refine and_congr_right fun _ => and_congr_right fun _ => forall₂_congr fun t ht => ?_
  obtain ⟨htb, hinit⟩ := Store.ArrayOk.slot (hok.patches hb hj').2.2 ht
  rw [h.transformAt_eq htb (Nat.lt_of_lt_of_le hinit (hok.blocks.init_le htb))]

/-! ### What a call needs -/

namespace Client

def needs (c : Client) : Call → Nat × Nat
  | .hashmapAddKey key =>
    if (hashmapGet c.arena key).isSome then (0, 0) else (mapGrowth c.arena.count c.arena.capacity, strSize key)
  | .patchlistAdd n file find =>
    match c.lists[n]? with
    | none => (0, 0)
    | some list =>
      let l := patchListAt c.arena.mem list.addr
      (arrayGrowth .patches l.patchCount l.patchCapacity, strSize file + strSize find)
  | .patchAddTransform n mtch replace =>
    match c.patches[n]? with
    | none => (0, 0)
    | some patch =>
      let p := patchAt c.arena.mem patch.addr
      (arrayGrowth .transforms p.transformCount p.transformCapacity, strSize mtch + strSize replace)
  | _ => (0, 0)

/-- There is room for the arrays of the call, but not for its strings as well. -/
def Torn (c : Client) (call : Call) : Prop :=
  c.arena.used + (c.needs call).1 ≤ c.arena.size ∧
    c.arena.size < c.arena.used + ((c.needs call).1 + (c.needs call).2)

instance (c : Client) (call : Call) : Decidable (c.Torn call) := inferInstanceAs (Decidable (_ ∧ _))

/-- The call adds to the map through a list, or a patch of a list, that `hashmap_get` finds. -/
def Current (c : Client) : Call → Prop
  | .hashmapInit => False
  | .hashmapRemove _ => False
  | .hashmapAddKey _ => True
  | .patchlistAdd n _ _ => ∃ key list, hashmapGet c.arena key = some list ∧ c.lists[n]? = some list
  | .patchAddTransform n _ _ => ∃ key list j, hashmapGet c.arena key = some list ∧
      j < (patchListAt c.arena.mem list.addr).patchCount ∧
      c.patches[n]? = some ((shmPtr .patches (patchListAt c.arena.mem list.addr).patchesOff).elem j)

/-- If some request of the call does not fit, the map is what it was before. -/
def Atomic (c : Client) (call : Call) : Prop :=
  c.arena.refusals < (c.exec call).arena.refusals → (c.exec call).arena.readMap = c.arena.readMap

def Untorn (c : Client) : List Call → Prop
  | [] => True
  | call :: calls => ¬c.Torn call ∧ (c.exec call).Untorn calls

end Client

def StoreClient.needs (d : StoreClient) : Call → Nat × Nat
  | .hashmapAddKey key =>
    if (d.store.index key).isSome then (0, 0) else (mapGrowth d.store.count d.store.capacity, strSize key)
  | .patchlistAdd n file find =>
    match d.lists[n]? with
    | none => (0, 0)
    | some (b, i) =>
      let l := d.store.listAt b i
      (arrayGrowth .patches l.patchCount l.patchCapacity, strSize file + strSize find)
  | .patchAddTransform n mtch replace =>
    match d.patches[n]? with
    | none => (0, 0)
    | some (b, j) =>
      let p := d.store.patchAt b j
      (arrayGrowth .transforms p.transformCount p.transformCapacity, strSize mtch + strSize replace)
  | _ => (0, 0)

variable {c : Client} {d : StoreClient}

theorem Follows.needs_eq (h : Follows c d) (call : Call) : c.needs call = d.needs call := by
  cases call with
  | hashmapInit => rfl
  | hashmapRemove key => rfl
  | hashmapAddKey key =>
    simp only [Client.needs, StoreClient.needs, h.lay.hashmapGet_eq h.ok, h.lay.count, h.lay.capacity,
      isSome_map]
  | patchlistAdd n file find =>
    simp only [Client.needs, StoreClient.needs, h.lists, getElem?_map]
    cases hd : d.lists[n]? with
    | none => rfl
    | some x =>
      obtain ⟨_, hb, hi⟩ := h.handles.lists x (mem_of_getElem? hd)
      simp only [map_some, h.lay.listAt_eq hb hi]
  | patchAddTransform n mtch replace =>
    simp only [Client.needs, StoreClient.needs, h.patches, getElem?_map]
    cases hd : d.patches[n]? with
    | none => rfl
    | some x =>
      obtain ⟨⟨_, hb⟩, hj⟩ := h.handles.patches x (mem_of_getElem? hd)
      simp only [map_some, h.lay.patchAt_eq hb (Nat.lt_of_lt_of_le hj (h.ok.blocks.init_le hb))]

theorem Follows.torn_iff (h : Follows c d) (call : Call) :
    c.Torn call ↔ d.store.Torn (d.needs call).1 (d.needs call).2 := by
  unfold Client.Torn Store.Torn
  rw [h.needs_eq, h.lay.used, h.lay.size]

theorem Follows.atomic_eq {c' d'} (h : Follows c d) (h' : Follows c' d') :
    (c.arena.refusals < c'.arena.refusals → c'.arena.readMap = c.arena.readMap) ↔
      (d.store.refusals < d'.store.refusals → d'.store.readMap = d.store.readMap) := by
  rw [h.lay.refusals, h'.lay.refusals, h.lay.readMap_eq h.ok, h'.lay.readMap_eq h'.ok]

/-! ### One call -/

private theorem listPtr_inj {b b' i i'} (h : listPtr b i = listPtr b' i') : b = b' ∧ i = i' := by
  simp only [listPtr, shmPtr, Ptr.elem, Kind.stride, Ptr.mk.injEq, true_and] at h
  omega

private theorem patchPtr_inj {b b' j j'} (h : patchPtr b j = patchPtr b' j') : b = b' ∧ j = j' := by
  simp only [patchPtr, shmPtr, Ptr.elem, Kind.stride, Ptr.mk.injEq, true_and] at h
  omega

private theorem Follows.entry_of_get (h : Follows c d) {key list}
    (hget : hashmapGet c.arena key = some list) : ∃ i < d.store.count, list = listPtr d.store.valuesOff i ∧
      patchListAt c.arena.mem list.addr = d.store.listAt d.store.valuesOff i := by
  rw [h.lay.hashmapGet_eq h.ok, map_eq_some_iff] at hget
  obtain ⟨i, hidx, rfl⟩ := hget
  have hi := (Store.index_some hidx).1
  exact ⟨i, hi, rfl, h.lay.listAt_eq h.ok.values (Nat.lt_of_lt_of_le hi h.ok.count_le)⟩

theorem Follows.store_atomic (h : Follows c d) {call} (hcur : c.Current call) :
    ((d.store.refusals < (d.exec call).store.refusals → (d.exec call).store.readMap = d.store.readMap) ↔
      ¬d.store.Torn (d.needs call).1 (d.needs call).2) ∧
    (d.store.Torn (d.needs call).1 (d.needs call).2 → ¬(d.exec call).store.NoZeroOffset) := by
  have hle := h.lay.used_le
  cases call with
  | hashmapInit => exact hcur.elim
  | hashmapRemove key => exact hcur.elim
  | hashmapAddKey key =>
    cases hidx : d.store.index key with
    | some i =>
      simp only [StoreClient.exec, Store.addKey_of_index hidx, StoreClient.needs, hidx, isSome_some, ↓reduceIte,
        Store.Torn, Nat.lt_irrefl, false_imp_iff, true_iff]
      omega
    | none =>
      simp only [StoreClient.exec, StoreClient.needs, hidx, isSome_none, Bool.false_eq_true, ↓reduceIte]
      exact ⟨Store.addKey_atomic h.ok hle hidx, fun ht => (Store.addKey_torn h.ok hidx ht).2⟩
  | patchlistAdd n file find =>
    obtain ⟨key, list, hget, hn⟩ := hcur
    obtain ⟨i, hi, rfl, -⟩ := h.entry_of_get hget
    rw [h.lists, getElem?_map, map_eq_some_iff] at hn
    obtain ⟨⟨b, i'⟩, hd, hptr⟩ := hn
    obtain ⟨rfl, rfl⟩ := listPtr_inj hptr
    simp only [StoreClient.exec, StoreClient.needs, hd]
    exact ⟨Store.addPatch_atomic h.ok hle hi file find, fun ht => (Store.addPatch_torn h.ok hi ht).2⟩
  | patchAddTransform n mtch replace =>
    obtain ⟨key, list, j, hget, hj, hn⟩ := hcur
    obtain ⟨i, hi, rfl, hlist⟩ := h.entry_of_get hget
    rw [hlist] at hj hn
    rw [h.patches, getElem?_map, map_eq_some_iff] at hn
    obtain ⟨⟨b, j'⟩, hd, hptr⟩ := hn
    obtain ⟨rfl, rfl⟩ := patchPtr_inj hptr
    simp only [StoreClient.exec, StoreClient.needs, hd]
    exact ⟨Store.addTransform_atomic h.ok hle hi rfl hj mtch replace,
      fun ht => (Store.addTransform_torn h.ok hi rfl hj ht).2⟩

theorem Follows.whole_exec (h : Follows c d) (hw : d.store.Whole) {call} (hne : call ≠ .hashmapInit)
    (hun : ¬d.store.Torn (d.needs call).1 (d.needs call).2) : (d.exec call).store.Whole := by
  have hle := h.lay.used_le
  cases call with
  | hashmapInit => exact absurd rfl hne
  | hashmapRemove key => exact hw.remove h.ok key
  | hashmapAddKey key =>
    cases hidx : d.store.index key with
    | some i =>
      simp only [StoreClient.exec, Store.addKey_of_index hidx]
      exact hw
    | none =>
      simp only [StoreClient.needs, hidx, isSome_none, Bool.false_eq_true, ↓reduceIte] at hun
      exact hw.addKey h.ok hle hidx hun
  | patchlistAdd n file find =>
    simp only [StoreClient.exec, StoreClient.needs] at hun ⊢
    cases hd : d.lists[n]? with
    | none => exact hw
    | some x =>
      obtain ⟨_, hb, hi⟩ := h.handles.lists x (mem_of_getElem? hd)
      simp only [hd] at hun ⊢
      rw [Store.addPatch_fst]
      exact hw.addElem h.ok hle (.list hb hi) hun
  | patchAddTransform n mtch replace =>
    simp only [StoreClient.exec, StoreClient.needs] at hun ⊢
    cases hd : d.patches[n]? with
    | none => exact hw
    | some x =>
      obtain ⟨⟨_, hb⟩, hj⟩ := h.handles.patches x (mem_of_getElem? hd)
      simp only [hd] at hun ⊢
      exact hw.addElem h.ok hle (.patch hb hj) hun

/-! ### Programs -/

theorem Follows.whole_run (h : Follows c d) (hw : d.store.Whole) {calls} (hinit : .hashmapInit ∉ calls)
    (hlen : ∀ call ∈ calls, ∀ s ∈ call.strings, s.length < 2 ^ 31) (hun : c.Untorn calls) :
    (d.run calls).store.Whole := by
  induction calls generalizing c d with
  | nil => exact hw
  | cons call calls ih =>
    have hne : call ≠ .hashmapInit := fun he => hinit (by simp [he])
    have h' := h.exec (hlen call (by simp)) (.inl hne)
    have hw' := h.whole_exec hw hne (fun ht => hun.1 ((h.torn_iff call).2 ht))
    exact ih h' hw' (fun hmem => hinit (by simp [hmem])) (fun call' hc => hlen call' (by simp [hc])) hun.2

theorem whole_start (m : Mem) : (StoreClient.start m).store.Whole := by
  refine ⟨?_, ?_⟩
  · intro i hi
    exact absurd hi (Nat.not_lt_zero i)
  · intro b k c j _ _ hj
    exact absurd hj (Nat.not_lt_zero j)

/-- In every state a program reaches, a call fails in one piece exactly if it is not torn, and a torn call publishes an
entry with a zero offset; a program none of whose calls is torn never shows a zero offset. -/
theorem exec_atomic_iff (m : Mem) {calls : List Call} (hinit : .hashmapInit ∉ calls)
    (hlen : ∀ call ∈ calls, ∀ s ∈ call.strings, s.length < maxFrameSize) :
    let c := (Client.start m).run calls
    (∀ call, (∀ s ∈ call.strings, s.length < maxFrameSize) → c.Current call →
      (c.Atomic call ↔ ¬c.Torn call) ∧ (c.Torn call → ¬(c.exec call).arena.NoZeroOffset)) ∧
    ((Client.start m).Untorn calls → c.arena.NoZeroOffset) := by
  intro c
  have hmax : ∀ {n}, n < maxFrameSize → n < 2 ^ 31 := by
    intro n hn
    unfold maxFrameSize at hn
    omega
  have hfol : Follows c ((StoreClient.start m).run calls) :=
    (follows_start m).run (fun call hc s hs => hmax (hlen call hc s hs)) (.inl hinit)
  constructor
  · intro call hstr hcur
    have hne : call ≠ .hashmapInit := by
      rintro rfl
      exact hcur
    have hfol' := hfol.exec (fun s hs => hmax (hstr s hs)) (.inl hne)
    obtain ⟨hat, hz⟩ := hfol.store_atomic hcur
    rw [hfol.torn_iff, hfol'.lay.noZeroOffset_iff hfol'.ok]
    exact ⟨(hfol.atomic_eq hfol').trans hat, hz⟩
  · intro hun
    have hw := (follows_start m).whole_run (whole_start m) hinit (fun call hc s hs => hmax (hlen call hc s hs)) hun
    exact (hfol.lay.noZeroOffset_iff hfol.ok).2 (hw.noZeroOffset hfol.ok)

def onePlugin : List Call := [.hashmapAddKey (.ofBytes [112])]

theorem exec_atomic_iff_one_patch :
    let c := (Client.start fun _ => 0).run onePlugin
    c.Atomic (.patchlistAdd 0 (.ofBytes [102]) (.ofBytes [])) ∧ c.arena.NoZeroOffset := by
  have hcal := exec_atomic_iff (fun _ => 0) (by decide : .hashmapInit ∉ onePlugin) (by decide)
  refine ⟨((hcal.1 (.patchlistAdd 0 (.ofBytes [102]) (.ofBytes [])) (by decide) ?_).1).2 (by decide +kernel), ?_⟩
  · exact ⟨.ofBytes [112], listPtr 88 0, by decide +kernel, by decide +kernel⟩
  · exact hcal.2 ⟨by decide +kernel, trivial⟩

def longString : CString := ⟨List.replicate shmIpcSize 97, by simp⟩

theorem strSize_longString : strSize longString = shmIpcSize + 8 := by
  have hlen : longString.length = shmIpcSize := length_replicate
  unfold strSize
  rw [hlen]
  rfl

theorem patchlistAdd_longString_torn :
    let c := (Client.start fun _ => 0).run onePlugin
    let call := Call.patchlistAdd 0 longString (.ofBytes [])
    (∀ s ∈ call.strings, s.length < maxFrameSize) ∧ c.Current call ∧
      c.arena.refusals < (c.exec call).arena.refusals ∧ (c.exec call).arena.readMap ≠ c.arena.readMap ∧
      ¬(c.exec call).arena.NoZeroOffset := by
  intro c call
  have hlen : longString.length = shmIpcSize := length_replicate
  have hstr : ∀ s ∈ call.strings, s.length < maxFrameSize := by
    intro s hs
    rcases mem_cons.1 hs with rfl | hs
    · rw [hlen]
      decide
    · rw [mem_singleton.1 hs]
      decide
  have hmax : ∀ s ∈ call.strings, s.length < 2 ^ 31 := fun s hs => Nat.lt_trans (hstr s hs) (by decide)
  have hlist : c.lists[0]? = some (listPtr 88 0) := by decide +kernel
  have hcur : c.Current call := ⟨.ofBytes [112], listPtr 88 0, by decide +kernel, hlist⟩
  have hfol : Follows c _ := (follows_start _).run (by decide) (.inl (by decide))
  have hfol' := hfol.exec hmax (.inl (by simp [call]))
  have htorn : c.Torn call := by
    have hhdr : patchListAt c.arena.mem (listPtr 88 0).addr = ⟨0, 0, 0⟩ := by decide +kernel
    have hused : c.arena.used = 288 := by decide +kernel
    have hsize : c.arena.size = shmIpcSize := by decide +kernel
    simp only [Client.Torn, Client.needs, call, hlist, hhdr, hused, hsize, strSize_longString]
    decide
  obtain ⟨hat, hz⟩ := hfol.store_atomic hcur
  have hnot : ¬c.Atomic call := fun h => (hat.1 ((hfol.atomic_eq hfol').1 h)) ((hfol.torn_iff call).1 htorn)
  obtain ⟨href, hmap⟩ := Classical.not_imp.1 hnot
  refine ⟨hstr, hcur, href, hmap, ?_⟩
  rw [hfol'.lay.noZeroOffset_iff hfol'.ok]
  exact hz ((hfol.torn_iff call).1 htorn)

end CloudeLoader
