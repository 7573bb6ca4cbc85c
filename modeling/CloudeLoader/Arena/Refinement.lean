import CloudeLoader.Arena.Holds

/-!
# The arena refines a map

The arena is for this: a map from plugin names to lists of patches, in insertion order, with calls that add a plugin,
remove one, append a patch to a plugin's list and append a transform to a patch.
-/

namespace CloudeLoader

open ByteMemory Arena List Option

variable {x : Nat × Nat}

inductive PatchRef
  | expired
  | orphan
  | live (key : CString) (idx : Nat)
  deriving DecidableEq

namespace PatchRef

def expire (key : CString) : PatchRef → PatchRef
  | live k idx => if k = key then expired else live k idx
  | r => r

def detach (key : CString) : PatchRef → PatchRef
  | live k idx => if k = key then orphan else live k idx
  | r => r

def detachAll : PatchRef → PatchRef
  | live _ _ => orphan
  | r => r

end PatchRef

structure AbsClient where
  map : PatchMap
  lists : List (Option CString)
  patches : List PatchRef

namespace AbsClient

def exec (a : AbsClient) : Call → Option AbsClient
  | .hashmapInit => some ⟨.empty, a.lists.map fun _ => none, a.patches.map PatchRef.detachAll⟩
  | .hashmapAddKey key => some ⟨a.map.addKey key [], (a.lists.map fun _ => none) ++ [some key], a.patches⟩
  | .hashmapRemove key => some ⟨a.map.erase key, a.lists.map fun _ => none, a.patches.map (PatchRef.detach key)⟩
  | .patchlistAdd n file find =>
    match a.lists[n]? with
    | some (some key) => some
      { map := a.map.modify key (· ++ [⟨file, find, []⟩])
        lists := a.lists
        patches := a.patches.map (PatchRef.expire key) ++ [.live key ((a.map.get key).getD []).length] }
    | _ => none
  | .patchAddTransform n mtch replace =>
    match a.patches[n]? with
    | some (.live key idx) => some
      { a with map := a.map.modify key fun ps => ps.modify idx fun p => p.addTransform mtch replace }
    | some .orphan => some a
    | _ => none

def run (a : AbsClient) (calls : List Call) : Option AbsClient := calls.foldlM exec a

def start : AbsClient := ⟨.empty, [], []⟩

end AbsClient

/-! ### The relation -/

def ListRefOk (st : Store) (x : Nat × Nat) (r : Option CString) : Prop :=
  ∀ k, r = some k → x.1 = st.valuesOff ∧ ∃ l, st.entries[x.2]? = some (k, l)

def PatchRefOk (st : Store) (dead : List PatchListShm) (x : Nat × Nat) : PatchRef → Prop
  | .expired => True
  | .orphan => ∃ l ∈ dead, x.1 = l.patchesOff ∧ x.2 < l.patchCount
  | .live k idx => ∃ l, (k, l) ∈ st.entries ∧ x.1 = l.patchesOff ∧ x.2 = idx ∧ idx < l.patchCount

/-- The client `d` holds the map of `a`, and its pointers stand for what `a` says. -/
structure Refines (d : StoreClient) (dead : List PatchListShm) (a : AbsClient) : Prop where
  holds : d.store.Holds dead a.map
  lists : List.Forall₂ (ListRefOk d.store) d.lists a.lists
  patches : List.Forall₂ (PatchRefOk d.store dead) d.patches a.patches

variable {d : StoreClient} {dead : List PatchListShm} {a a' : AbsClient}

private theorem forall₂_getElem? {α β : Type} {R : α → β → Prop} {l l'} (h : List.Forall₂ R l l')
    {n : Nat} {y : β} (hy : l'[n]? = some y) : ∃ x, l[n]? = some x ∧ R x y := by
  induction h generalizing n with
  | nil => simp at hy
  | cons hxy _ ih =>
    cases n with
    | zero =>
      obtain rfl : _ = y := by simpa using hy
      exact ⟨_, rfl, hxy⟩
    | succ n => exact ih hy

private theorem listRefs_none {st} {R : Nat × Nat → Option CString → Prop} {l}
    {l'} (h : List.Forall₂ R l l') : List.Forall₂ (ListRefOk st) l (l'.map fun _ => none) :=
  forall₂_map_right_iff.2 (h.imp fun _ _ _ _ hk => by simp at hk)

private theorem ListRefOk.keep {st st' r} (h : ListRefOk st x r) (hval : st'.valuesOff = st.valuesOff)
    (hent : ∀ (i : Nat) k l, st.entries[i]? = some (k, l) → ∃ l', st'.entries[i]? = some (k, l')) : ListRefOk st' x r := by
  intro k hk
  obtain ⟨hx, l, he⟩ := h k hk
  exact ⟨hx.trans hval.symm, hent _ _ _ he⟩

private theorem PatchRefOk.keep {st st' dead dead' r} (h : PatchRefOk st dead x r) (hdead : ∀ l ∈ dead, l ∈ dead')
    (hent : ∀ k idx l, r = .live k idx → (k, l) ∈ st.entries → (k, l) ∈ st'.entries) : PatchRefOk st' dead' x r := by
  cases r with
  | expired => exact trivial
  | orphan =>
    obtain ⟨l, hl, hx⟩ := h
    exact ⟨l, hdead l hl, hx⟩
  | live k idx =>
    obtain ⟨l, hl, hx⟩ := h
    exact ⟨l, hent k idx l rfl hl, hx⟩

section

variable (h : Refines d dead a)

include h

theorem Refines.hashmapInit :
    ∃ dead' a', a.exec .hashmapInit = some a' ∧ Refines (d.exec .hashmapInit) dead' a' := by
  refine ⟨d.store.headers ++ dead, _, rfl, h.holds.initMap, listRefs_none h.lists,
    forall₂_map_right_iff.2 (h.patches.imp fun x r hr => ?_)⟩
  cases r with
  | expired => exact trivial
  | orphan =>
    obtain ⟨l, hl, hx⟩ := hr
    exact ⟨l, mem_append_right _ hl, hx⟩
  | live k idx =>
    obtain ⟨l, hl, hx1, hx2, hlt⟩ := hr
    exact ⟨l, mem_append_left _ (mem_map_of_mem hl), hx1, by omega⟩

theorem Refines.hashmapAddKey {key} (hf : (d.exec (.hashmapAddKey key)).store.refusals = d.store.refusals) :
    ∃ dead' a', a.exec (.hashmapAddKey key) = some a' ∧ Refines (d.exec (.hashmapAddKey key)) dead' a' := by
  obtain ⟨st', i, e, hhol, he, hent, -⟩ := h.holds.addKey key hf
  refine ⟨dead, _, rfl, ?_⟩
  simp only [StoreClient.exec, e]
  refine ⟨hhol, rel_append (listRefs_none h.lists) (List.Forall₂.cons ?_ List.Forall₂.nil),
    h.patches.imp fun x r hr => ?_⟩
  · intro k hk
    cases hk
    exact ⟨rfl, _, he⟩
  · refine hr.keep (fun _ hl => hl) fun k idx l _ hl => ?_
    obtain ⟨i', he'⟩ := getElem?_of_mem hl
    exact mem_of_getElem? (hent i' _ he')

theorem Refines.hashmapRemove (key : CString) :
    ∃ dead' a', a.exec (.hashmapRemove key) = some a' ∧ Refines (d.exec (.hashmapRemove key)) dead' a' := by
  cases hidx : d.store.index key with
  | none =>
    obtain ⟨e, e'⟩ := h.holds.remove_of_none hidx
    refine ⟨dead, _, rfl, ?_⟩
    simp only [StoreClient.exec, e, e']
    refine ⟨h.holds, listRefs_none h.lists, forall₂_map_right_iff.2 (h.patches.imp fun x r hr => ?_)⟩
    cases r with
    | expired => exact trivial
    | orphan => exact hr
    | live k idx =>
      have hk : k ≠ key := by
        rintro rfl
        obtain ⟨l, hl, -⟩ := hr
        exact Store.index_eq_none hidx (mem_map_of_mem hl)
      simp only [PatchRef.detach, hk, ↓reduceIte]
      exact hr
  | some i =>
    obtain ⟨l, he⟩ := Store.index_eq_some hidx
    obtain ⟨hhol, hent⟩ := h.holds.remove he
    refine ⟨l :: dead, _, rfl, hhol, listRefs_none h.lists,
      forall₂_map_right_iff.2 (h.patches.imp fun x r hr => ?_)⟩
    cases r with
    | expired => exact trivial
    | orphan =>
      obtain ⟨l', hl', hx⟩ := hr
      exact ⟨l', mem_cons_of_mem _ hl', hx⟩
    | live k idx =>
      obtain ⟨l', hl', hx1, hx2, hlt⟩ := hr
      obtain ⟨i', he'⟩ := getElem?_of_mem hl'
      by_cases hk : k = key
      · subst hk
        obtain ⟨-, rfl⟩ := h.holds.entry_unique he he'
        simp only [PatchRef.detach, ↓reduceIte]
        exact ⟨l, mem_cons_self, hx1, by omega⟩
      · simp only [PatchRef.detach, hk, ↓reduceIte]
        refine ⟨l', ?_, hx1, hx2, hlt⟩
        show (k, l') ∈ (d.store.remove key).entries
        rw [hent, mem_eraseIdx_iff_getElem?]
        refine ⟨i', ?_, he'⟩
        rintro rfl
        cases he.symm.trans he'
        exact hk rfl

theorem Refines.patchlistAdd {n : Nat} {file find} (ha : a.exec (.patchlistAdd n file find) = some a')
    (hf : (d.exec (.patchlistAdd n file find)).store.refusals = d.store.refusals) :
    ∃ dead', Refines (d.exec (.patchlistAdd n file find)) dead' a' := by
  obtain ⟨key, hn, rfl⟩ : ∃ key, a.lists[n]? = some (some key) ∧ a' =
      { map := a.map.modify key (· ++ [⟨file, find, []⟩])
        lists := a.lists
        patches := a.patches.map (PatchRef.expire key) ++ [.live key ((a.map.get key).getD []).length] } := by
    simp only [AbsClient.exec] at ha
    split at ha
    · rename_i key hn
      injection ha with ha
      exact ⟨key, hn, ha.symm⟩
    · simp at ha
  obtain ⟨⟨b, i⟩, hd, hx⟩ := forall₂_getElem? h.lists hn
  obtain ⟨rfl, l, he⟩ := hx key rfl
  simp only [StoreClient.exec, hd] at hf ⊢
  obtain ⟨st', l', e, hhol, hsm, hent, hcnt⟩ := h.holds.addPatch he hf
  rw [e]
  have hi := (List.getElem?_eq_some_iff.1 he).1
  have hself : st'.entries[i]? = some (key, l') := by rw [hent, List.getElem?_set, if_pos rfl, if_pos hi]
  have hoth : ∀ {i' : Nat} {x}, i ≠ i' → d.store.entries[i']? = some x → st'.entries[i']? = some x := by
    intro i' x hii hx
    rw [hent, List.getElem?_set, if_neg hii, hx]
  have hkeep : ∀ (i' : Nat) k l₂, d.store.entries[i']? = some (k, l₂) → ∃ l₃, st'.entries[i']? = some (k, l₃) := by
    intro i' k l₂ he₂
    by_cases hii : i = i'
    · subst hii
      rw [he] at he₂
      injection he₂ with e
      injection e with e1
      exact ⟨l', e1 ▸ hself⟩
    · exact ⟨l₂, hoth hii he₂⟩
  refine ⟨dead, hhol, h.lists.imp fun x r hr => hr.keep hsm.2.1 hkeep,
    List.rel_append ?_ (List.Forall₂.cons ?_ List.Forall₂.nil)⟩
  · refine List.forall₂_map_right_iff.2 (h.patches.imp fun x r hr => ?_)
    cases r with
    | expired => exact trivial
    | orphan => exact hr
    | live k idx =>
      by_cases hk : k = key
      · simp only [PatchRef.expire, hk, ↓reduceIte]
        exact trivial
      · obtain ⟨l₂, hl₂, hx⟩ := hr
        obtain ⟨i', he'⟩ := List.getElem?_of_mem hl₂
        simp only [PatchRef.expire, hk, ↓reduceIte]
        refine ⟨l₂, List.mem_of_getElem? (hoth ?_ he'), hx⟩
        rintro rfl
        cases he.symm.trans he'
        exact hk rfl
  · have hlen : ((a.map.get key).getD []).length = l.patchCount := by
      rw [InsertionMap.get_of_getElem? (h.holds.entry he)]
      simp [Store.readList]
    exact ⟨l', List.mem_of_getElem? hself, rfl, hlen.symm, by omega⟩

private theorem Refines.of_entries {st' m} (hhol : st'.Holds dead m)
    (hsm : d.store.SameMap st') (hent : st'.entries = d.store.entries) :
    Refines { d with store := st' } dead { a with map := m } := by
  have hkeep : ∀ (i : Nat) k l, d.store.entries[i]? = some (k, l) → ∃ l', st'.entries[i]? = some (k, l') := by
    intro i k l he
    exact ⟨l, by rw [hent]; exact he⟩
  refine ⟨hhol, h.lists.imp fun x r hr => hr.keep hsm.2.1 hkeep, h.patches.imp fun x r hr => ?_⟩
  refine hr.keep (fun _ hl => hl) fun k idx l _ hl => ?_
  show (k, l) ∈ st'.entries
  rw [hent]
  exact hl

theorem Refines.patchAddTransform {n : Nat} {mtch replace} (ha : a.exec (.patchAddTransform n mtch replace) = some a')
    (hf : (d.exec (.patchAddTransform n mtch replace)).store.refusals = d.store.refusals) :
    ∃ dead', Refines (d.exec (.patchAddTransform n mtch replace)) dead' a' := by
  refine ⟨dead, ?_⟩
  simp only [AbsClient.exec] at ha
  split at ha
  · rename_i key idx hn
    cases ha
    obtain ⟨⟨b, j⟩, hd, l, hl, hx1, hx2, hlt⟩ := forall₂_getElem? h.patches hn
    obtain ⟨rfl, rfl⟩ : b = l.patchesOff ∧ j = idx := ⟨hx1, hx2⟩
    obtain ⟨i, he⟩ := getElem?_of_mem hl
    simp only [StoreClient.exec, hd] at hf ⊢
    obtain ⟨st', e, hhol, hsm, hent⟩ := h.holds.addTransform he hlt hf
    rw [e]
    exact h.of_entries hhol hsm hent
  · rename_i hn
    cases ha
    obtain ⟨⟨b, j⟩, hd, l, hl, hx1, hlt⟩ := forall₂_getElem? h.patches hn
    obtain rfl : b = l.patchesOff := hx1
    simp only [StoreClient.exec, hd] at hf ⊢
    obtain ⟨st', e, hhol, hsm, hent⟩ := h.holds.addTransform_dead hl hlt hf
    rw [e]
    exact h.of_entries hhol hsm hent
  · simp at ha

/-! ### Whole programs -/

theorem Refines.exec {call} (ha : a.exec call = some a')
    (hf : (d.exec call).store.refusals = d.store.refusals) : ∃ dead', Refines (d.exec call) dead' a' := by
  cases call with
  | hashmapInit =>
    obtain ⟨dead', a'', e, h'⟩ := h.hashmapInit
    cases e.symm.trans ha
    exact ⟨dead', h'⟩
  | hashmapAddKey key =>
    obtain ⟨dead', a'', e, h'⟩ := h.hashmapAddKey hf
    cases e.symm.trans ha
    exact ⟨dead', h'⟩
  | hashmapRemove key =>
    obtain ⟨dead', a'', e, h'⟩ := h.hashmapRemove key
    cases e.symm.trans ha
    exact ⟨dead', h'⟩
  | patchlistAdd n file find => exact h.patchlistAdd ha hf
  | patchAddTransform n mtch replace => exact h.patchAddTransform ha hf

end

theorem Follows.refusals_eq_zero {c} (h : Follows c d) (hs : ¬c.arena.OutOfSpace) : d.store.refusals = 0 :=
  h.lay.refusals.symm.trans ((Arena.refusals_eq_zero _).2 hs)

theorem Refines.run {c calls} (hfol : Follows c d) (h : Refines d dead a)
    (hlen : ∀ call ∈ calls, ∀ s ∈ call.strings, s.length < 2 ^ 31) (hs : ¬(c.run calls).arena.OutOfSpace)
    (ha : a.run calls = some a') : Follows (c.run calls) (d.run calls) ∧ ∃ dead', Refines (d.run calls) dead' a' := by
  induction calls generalizing c d dead a with
  | nil =>
    obtain rfl : a = a' := by simpa [AbsClient.run] using ha
    exact ⟨hfol, dead, h⟩
  | cons call calls ih =>
    obtain ⟨a1, ha1, ha2⟩ : ∃ a1, a.exec call = some a1 ∧ a1.run calls = some a' := by
      simpa [AbsClient.run, foldlM_cons, bind_eq_some_iff] using ha
    have hs1 : ¬(c.exec call).arena.OutOfSpace := fun hout => hs (hout.mono ((c.exec call).run_extends calls))
    have hfol1 := hfol.exec (hlen call (by simp)) (.inr hs1)
    have hs0 : ¬c.arena.OutOfSpace := fun hout => hs1 (hout.mono (c.exec_extends call))
    obtain ⟨dead1, h1⟩ := h.exec ha1 ((hfol1.refusals_eq_zero hs1).trans (hfol.refusals_eq_zero hs0).symm)
    exact ih hfol1 h1 (fun call' hc => hlen call' (by simp [hc])) hs ha2

theorem refines_start (m : Mem) : Refines (StoreClient.start m) [] AbsClient.start where
  holds := ⟨ok_initial m, Store.owned_nil, rfl⟩
  lists := List.Forall₂.nil
  patches := List.Forall₂.nil

theorem Refines.hashmapGet_eq {c} (hfol : Follows c d) (h : Refines d dead a) {key}
    (hx : ListRefOk d.store x (some key)) : hashmapGet c.arena key = some (listPtr x.1 x.2) := by
  obtain ⟨hx1, l, he⟩ := hx key rfl
  rw [hfol.lay.hashmapGet_eq hfol.ok, h.holds.index_eq_some he, hx1]
  rfl

/-- Every program that uses its pointers while they are current and never runs out of space leaves in the arena exactly
the map it should: reading the bytes back gives the abstract map, whose keys are distinct, and a list pointer that is
current is the one `hashmap_get` finds for its key. -/
theorem run_refines (m : Mem) (calls : List Call) {a : AbsClient}
    (hlen : ∀ call ∈ calls, ∀ s ∈ call.strings, s.length < 2 ^ 31)
    (hspace : ¬((Client.start m).run calls).arena.OutOfSpace) (habs : AbsClient.start.run calls = some a) :
    let c := (Client.start m).run calls
    c.arena.readMap = a.map.entries ∧ (c.arena.readMap.map Prod.fst).Nodup ∧
      ∀ (n : Nat) (key : CString), a.lists[n]? = some (some key) → ∃ p, c.lists[n]? = some p ∧ hashmapGet c.arena key = some p := by
  intro c
  obtain ⟨hfol, dead, h⟩ := (refines_start m).run (follows_start m) hlen hspace habs
  have hmap : c.arena.readMap = a.map.entries := (hfol.lay.readMap_eq hfol.ok).trans h.holds.map
  refine ⟨hmap, by rw [hmap]; exact a.map.nodup, ?_⟩
  intro n key hn
  obtain ⟨x, hx, hr⟩ := forall₂_getElem? h.lists hn
  refine ⟨listPtr x.1 x.2, ?_, h.hashmapGet_eq hfol hr⟩
  show ((Client.start m).run calls).lists[n]? = _
  rw [hfol.lists, getElem?_map, hx]
  rfl

def reusedKey (p q : CString) : List Call :=
  [.hashmapAddKey p, .patchlistAdd 0 p q, .patchAddTransform 0 q q, .hashmapAddKey q, .hashmapRemove p,
    .patchAddTransform 0 p p, .hashmapAddKey p, .patchlistAdd 2 q p, .hashmapAddKey p]

theorem run_refines_reusedKey :
    ((Client.start fun _ => 0).run (reusedKey (.ofBytes [112]) (.ofBytes [113]))).arena.readMap =
      [(.ofBytes [113], []), (.ofBytes [112], [⟨.ofBytes [113], .ofBytes [112], []⟩])] :=
  (run_refines (fun _ => 0) (reusedKey (.ofBytes [112]) (.ofBytes [113])) (by decide) (by decide +kernel) rfl).1

end CloudeLoader
