import CloudeLoader.Arena.Store

/-!
# The invariant of the store

`Store.Ok` says that every offset a structure holds leads to a block of the right kind and capacity, and that counts stay
within what has been written.
-/

namespace CloudeLoader

open ByteMemory Nat

namespace Store

/-- The offset of a string, or 0 for a copy that did not fit. -/
def StrOk (st : Store) (off : Nat) : Prop := off = 0 ∨ ∃ c, st.blk off = some (.str, c)

/-- An array without elements, or a block with room for its elements, of which as many are written as it counts. -/
def ArrayOk (st : Store) (k : Kind) (off count capacity : Nat) : Prop :=
  (off = 0 ∧ count = 0 ∧ capacity = 0) ∨ (st.blk off = some (k, capacity) ∧ count ≤ st.init off)

def ListOk (st : Store) (l : PatchListShm) : Prop := st.ArrayOk .patches l.patchesOff l.patchCount l.patchCapacity

def PatchOk (st : Store) (p : PatchShm) : Prop :=
  st.StrOk p.fileOff ∧ st.StrOk p.findOff ∧ st.ArrayOk .transforms p.transformsOff p.transformCount p.transformCapacity

def TransformOk (st : Store) (t : TransformShm) : Prop := st.StrOk t.matchOff ∧ st.StrOk t.replaceOff

/-- Where the offset, count and capacity of an array stand: in a list of the map, or in a patch that was written. -/
inductive Head (st : Store) : Kind → Nat → Nat → Prop
  | list {b c i : Nat} (hb : st.blk b = some (.values, c)) (hi : i < c) : Head st .patches b (3 * i)
  | patch {b c j : Nat} (hb : st.blk b = some (.patches, c)) (hj : j < st.init b) : Head st .transforms b (5 * j + 2)

def HeadOk (st : Store) (k : Kind) (b w : Nat) : Prop :=
  st.ArrayOk k (st.word b w) (st.word b (w + 1)) (st.word b (w + 2))

/-- The two strings of an element. -/
def ElemOk (st : Store) (k : Kind) (b j : Nat) : Prop := ∀ x < 2, st.StrOk (st.word b (k.words * j + x))

/-- The blocks: none at or above `used`, none empty, and nothing written but in blocks that have the room. -/
structure BlocksOk (st : Store) : Prop where
  zero : st.blk 0 = none
  used_pos : 0 < st.used
  fresh : ∀ {b}, st.used ≤ b → st.blk b = none
  pos : ∀ {b k c}, st.blk b = some (k, c) → 0 < c
  init_le : ∀ {b k c}, st.blk b = some (k, c) → st.init b ≤ c
  init_none : ∀ {b}, st.blk b = none → st.init b = 0

structure Ok (st : Store) : Prop where
  blocks : st.BlocksOk
  keys : st.blk st.keysOff = some (.keys, st.capacity)
  values : st.blk st.valuesOff = some (.values, st.capacity)
  count_le : st.count ≤ st.capacity
  keyStr : ∀ {i}, i < st.count → st.StrOk (st.word st.keysOff i)
  elems : ∀ {b k c j}, st.blk b = some (k, c) → k.IsArray → j < st.init b → st.ElemOk k b j
  heads : ∀ {k b w}, st.Head k b w → st.HeadOk k b w

variable {st st' : Store} {b b' c i j n w : Nat} {k : Kind}

theorem Ok.lists (h : st.Ok) (hb : st.blk b = some (.values, c)) (hi : i < c) : st.ListOk (st.listAt b i) :=
  h.heads (.list hb hi)

theorem Ok.patches (h : st.Ok) (hb : st.blk b = some (.patches, c)) (hj : j < st.init b) : st.PatchOk (st.patchAt b j) :=
  ⟨h.elems hb (.inl rfl) hj 0 (by omega), h.elems hb (.inl rfl) hj 1 (by omega), h.heads (.patch hb hj)⟩

theorem Ok.transforms (h : st.Ok) (hb : st.blk b = some (.transforms, c)) (hj : j < st.init b) :
    st.TransformOk (st.transformAt b j) :=
  ⟨h.elems hb (.inr rfl) hj 0 (by omega), h.elems hb (.inr rfl) hj 1 (by omega)⟩

/-! ### More blocks -/

structure Le (st st' : Store) : Prop where
  blk : ∀ {b x}, st.blk b = some x → st'.blk b = some x
  init : ∀ b, st.init b ≤ st'.init b

theorem StrOk.mono (hle : st.Le st') {off} (h : st.StrOk off) : st'.StrOk off := by
  rcases h with h | ⟨c, h⟩
  · exact .inl h
  · exact .inr ⟨c, hle.blk h⟩

section Arrays

variable {off count capacity : Nat} {l : PatchListShm}

theorem ArrayOk.mono (hle : st.Le st') (h : st.ArrayOk k off count capacity) : st'.ArrayOk k off count capacity := by
  rcases h with h | ⟨h1, h2⟩
  · exact .inl h
  · exact .inr ⟨hle.blk h1, le_trans h2 (hle.init _)⟩

theorem ArrayOk.count_le (h : st.ArrayOk k off count capacity) (hb : st.BlocksOk) : count ≤ capacity := by
  rcases h with ⟨-, h1, h2⟩ | ⟨hblk, hcnt⟩
  · omega
  · exact le_trans hcnt (hb.init_le hblk)

theorem ArrayOk.present (h : st.ArrayOk k off count capacity) (hne : off ≠ 0 ∨ capacity ≠ 0) :
    st.blk off = some (k, capacity) ∧ count ≤ st.init off := by
  rcases h with ⟨h0, -, h0'⟩ | h
  · omega
  · exact h

theorem ArrayOk.slot (h : st.ArrayOk k off count capacity) (hj : j < count) :
    st.blk off = some (k, capacity) ∧ j < st.init off := by
  rcases h with ⟨-, h0, -⟩ | ⟨hb, hcnt⟩
  · omega
  · exact ⟨hb, lt_of_lt_of_le hj hcnt⟩

theorem ListOk.mono (hle : st.Le st') (h : st.ListOk l) : st'.ListOk l := ArrayOk.mono hle h

theorem ArrayOk.blk (h : st.ArrayOk k off count capacity) (hlt : count < capacity) : st.blk off = some (k, capacity) :=
  (h.present (.inr (by omega))).1

end Arrays

theorem ElemOk.mono (hle : st.Le st') (hw : ∀ w, st'.word b w = st.word b w) (h : st.ElemOk k b j) : st'.ElemOk k b j := by
  intro x hx
  rw [hw]
  exact (h x hx).mono hle

theorem HeadOk.mono (hle : st.Le st') (hw : ∀ w, st'.word b w = st.word b w) (h : st.HeadOk k b w) : st'.HeadOk k b w := by
  unfold HeadOk
  rw [hw, hw, hw]
  exact ArrayOk.mono hle h

theorem Head.mono (hle : st.Le st') (h : st.Head k b w) : st'.Head k b w := by
  cases h with
  | list hb hi => exact .list (hle.blk hb) hi
  | patch hb hj => exact .patch (hle.blk hb) (lt_of_lt_of_le hj (hle.init _))

theorem BlocksOk.ne_used (h : st.BlocksOk) {x} (hb : st.blk b = some x) : b ≠ st.used := by
  rintro rfl
  rw [h.fresh (le_refl _)] at hb
  simp at hb

theorem blk_unique {k k' c c'} (hb : st.blk b = some (k, c)) (hb' : st.blk b = some (k', c')) :
    k = k' ∧ c = c' := Prod.mk.inj (Option.some.inj (hb.symm.trans hb'))

theorem ne_of_kind {k k' c c'} (hb : st.blk b = some (k, c)) (hb' : st.blk b' = some (k', c'))
    (hk : k ≠ k') : b ≠ b' := by
  rintro rfl
  exact hk (blk_unique hb hb').1

/-- The block of a header, and that the header lies in it. -/
theorem Head.exists_blk (h : st.Head k b w) (hb : st.BlocksOk) :
    ∃ k' c, st.blk b = some (k', c) ∧ (k' = .values ∨ k' = .patches) ∧ k ≠ k' ∧ 4 * w + 12 ≤ k'.stride * c := by
  cases h with
  | list hblk hi => exact ⟨_, _, hblk, .inl rfl, by decide, by simp only [Kind.stride]; omega⟩
  | patch hblk hj =>
    have := hb.init_le hblk
    exact ⟨_, _, hblk, .inr rfl, by decide, by simp only [Kind.stride]; omega⟩

theorem Head.inside {k'} (hh : st.Head k b w) (hok : st.Ok) (hb : st.blk b = some (k', c)) :
    k' ≠ .str ∧ 4 * w + 12 ≤ k'.stride * c := by
  obtain ⟨_, _, hb', hk, -, hend⟩ := hh.exists_blk hok.blocks
  obtain ⟨rfl, rfl⟩ := blk_unique hb hb'
  exact ⟨by rcases hk with rfl | rfl <;> decide, hend⟩

theorem Head.ne_block {k'} (hh : st.Head k b w) (hok : st.Ok) (hb : st.blk b' = some (k', c))
    (hk : k' ≠ .values ∧ k' ≠ .patches) : b' ≠ b := by
  obtain ⟨_, _, hb', hor, -⟩ := hh.exists_blk hok.blocks
  refine ne_of_kind hb hb' ?_
  rcases hor with rfl | rfl
  · exact hk.1
  · exact hk.2

theorem Head.isArray (h : st.Head k b w) : k.IsArray := by
  cases h with
  | list => exact .inl rfl
  | patch => exact .inr rfl

/-- Two headers in a block are one or do not meet. -/
theorem Head.eq_or_far {k' w'} (h : st.Head k b w) (h' : st.Head k' b w') :
    (k = k' ∧ w = w') ∨ w + 3 ≤ w' ∨ w' + 3 ≤ w := by
  cases h with
  | list hb =>
    cases h' with
    | list =>
      rw [eq_self, true_and]
      omega
    | patch hb' => cases (blk_unique hb hb').1
  | patch hb =>
    cases h' with
    | list hb' => cases (blk_unique hb hb').1
    | patch =>
      rw [eq_self, true_and]
      omega

/-- A header does not meet the offsets of the strings of the elements in its block. -/
theorem Head.elem_far {x} (h : st.Head k b w) {k'} (hb : st.blk b = some (k', c)) (hk : k'.IsArray) (hx : x < 2) :
    k'.words * j + x < w ∨ w + 3 ≤ k'.words * j + x := by
  cases h with
  | list hb' =>
    obtain rfl := (blk_unique hb hb').1
    exact absurd hk (by decide)
  | patch hb' =>
    obtain rfl := (blk_unique hb hb').1
    rw [words_patches]
    omega

/-! ### Allocating -/

theorem BlocksOk.withBlock (h : st.BlocksOk) (hc : 0 < c) : (st.withBlock k c).BlocksOk := by
  have hpos := align8_pos (mul_pos (stride_pos k) hc)
  have hcas : ∀ {b k' c'}, (st.withBlock k c).blk b = some (k', c') →
      (b = st.used ∧ c' = c) ∨ st.blk b = some (k', c') := by
    intro b k' c' hb
    rw [blk_withBlock] at hb
    split at hb
    · rename_i he
      injection hb with hb
      injection hb with _ h2
      exact .inl ⟨he, h2.symm⟩
    · exact .inr hb
  refine ⟨?_, ?_, ?_, ?_, ?_, ?_⟩
  · rw [blk_withBlock, if_neg (Nat.ne_of_lt h.used_pos)]
    exact h.zero
  · exact lt_of_lt_of_le h.used_pos (le_add_right _ _)
  · intro b hb
    have hb : st.used + align8 (k.stride * c) ≤ b := hb
    rw [blk_withBlock, if_neg (by omega)]
    exact h.fresh (by omega)
  · intro b k' c' hb
    rcases hcas hb with ⟨-, rfl⟩ | hb
    · exact hc
    · exact h.pos hb
  · intro b k' c' hb
    rcases hcas hb with ⟨rfl, rfl⟩ | hb
    · show st.init st.used ≤ c'
      rw [h.init_none (h.fresh (le_refl _))]
      exact zero_le _
    · exact h.init_le hb
  · intro b hb
    rw [blk_withBlock] at hb
    split at hb
    · simp at hb
    · exact h.init_none hb

theorem BlocksOk.le_withBlock (h : st.BlocksOk) : st.Le (st.withBlock k c) where
  blk := by
    intro b x hb
    rw [blk_withBlock, if_neg (h.ne_used hb)]
    exact hb
  init := fun _ => le_refl _

theorem Ok.withBlock (h : st.Ok) (hk : k ≠ .values) (hc : 0 < c) : (st.withBlock k c).Ok := by
  have hle := h.blocks.le_withBlock (k := k) (c := c)
  have hold : ∀ {b k' c'}, (st.withBlock k c).blk b = some (k', c') → k' ≠ k ∨ 0 < st.init b →
      st.blk b = some (k', c') := by
    intro b k' c' hb hor
    rw [blk_withBlock] at hb
    split at hb
    · rename_i he
      injection hb with hb
      injection hb with h1 h2
      subst he
      rw [h.blocks.init_none (h.blocks.fresh (le_refl _))] at hor
      rcases hor with hor | hor
      · exact absurd h1.symm hor
      · exact absurd hor (lt_irrefl _)
    · exact hb
  refine ⟨h.blocks.withBlock hc, hle.blk h.keys, hle.blk h.values, h.count_le, fun hi => (h.keyStr hi).mono hle, ?_, ?_⟩
  · intro b k' c' j hb hk' hj
    exact (h.elems (hold hb (.inr (zero_lt_of_lt hj))) hk' hj).mono hle fun _ => rfl
  · intro k' b w hh
    refine HeadOk.mono hle (fun _ => rfl) (h.heads ?_)
    cases hh with
    | list hb hi => exact .list (hold hb (.inl hk.symm)) hi
    | patch hb hj => exact .patch (hold hb (.inr (zero_lt_of_lt hj))) hj

/-- `Ok` is not about the strings and the refusals. -/
theorem Ok.congr (h : st.Ok) (str : Nat → CString) (refusals : Nat) : Ok { st with str := str, refusals := refusals } := by
  refine ⟨⟨h.blocks.zero, h.blocks.used_pos, h.blocks.fresh, h.blocks.pos, h.blocks.init_le, h.blocks.init_none⟩,
    h.keys, h.values, h.count_le, h.keyStr, h.elems, ?_⟩
  intro k b w hh
  refine HeadOk.mono ⟨id, fun _ => le_refl _⟩ (fun _ => rfl) (h.heads (k := k) (b := b) (w := w) ?_)
  cases hh with
  | list hb hi => exact .list hb hi
  | patch hb hj => exact .patch hb hj

theorem Ok.refuse (h : st.Ok) : st.refuse.Ok := h.congr st.str (st.refusals + 1)

theorem Ok.withStr (h : st.Ok) (s : CString) : (st.withStr s).Ok :=
  (h.withBlock (k := .str) (c := s.length + 1) (by decide) (by omega)).congr _ _

structure Keeps (st st' : Store) : Prop where
  blk : ∀ {b x}, st.blk b = some x → st'.blk b = some x
  word : ∀ {b x}, st.blk b = some x → ∀ w, st'.word b w = st.word b w
  str : ∀ {off}, st.StrOk off → st'.str off = st.str off
  init : ∀ {b x}, st.blk b = some x → st'.init b = st.init b

theorem Keeps.refl (st : Store) : st.Keeps st := ⟨fun h => h, fun _ _ => rfl, fun _ => rfl, fun _ => rfl⟩

theorem Keeps.strOk {off} (h : st.Keeps st') (hs : st.StrOk off) : st'.StrOk off := by
  rcases hs with hs | ⟨c, hs⟩
  · exact .inl hs
  · exact .inr ⟨c, h.blk hs⟩

theorem Keeps.trans {st''} (h : st.Keeps st') (h' : st'.Keeps st'') : st.Keeps st'' :=
  ⟨fun hb => h'.blk (h.blk hb), fun hb w => (h'.word (h.blk hb) w).trans (h.word hb w),
    fun hs => (h'.str (h.strOk hs)).trans (h.str hs), fun hb => (h'.init (h.blk hb)).trans (h.init hb)⟩

theorem BlocksOk.keeps_withBlock (h : st.BlocksOk) : st.Keeps (st.withBlock k c) :=
  ⟨h.le_withBlock.blk, fun _ _ => rfl, fun _ => rfl, fun _ => rfl⟩

theorem keeps_refuse : st.Keeps st.refuse := ⟨fun h => h, fun _ _ => rfl, fun _ => rfl, fun _ => rfl⟩

def SameMap (st st' : Store) : Prop :=
  st'.keysOff = st.keysOff ∧ st'.valuesOff = st.valuesOff ∧ st'.count = st.count ∧ st'.capacity = st.capacity

theorem BlocksOk.keeps_withStr (h : st.BlocksOk) (s : CString) : st.Keeps (st.withStr s) := by
  refine ⟨h.le_withBlock.blk, fun _ _ => rfl, ?_, fun _ => rfl⟩
  intro off hs
  refine Function.update_of_ne ?_ ..
  rcases hs with rfl | ⟨c, hb⟩
  · exact Nat.ne_of_lt h.used_pos
  · exact h.ne_used hb

/-- What copying a string does: everything stays, and the result is the offset of a string or 0. -/
structure StrdupSpec (st st' : Store) (off : Nat) (s : CString) : Prop where
  ok : st'.Ok
  keeps : st.Keeps st'
  map : st.SameMap st'
  word : st'.word = st.word
  init : st'.init = st.init
  strOk : st'.StrOk off
  spends : st.Spends st' (strSize s)
  written : st'.refusals = st.refusals → off ≠ 0 ∧ st'.str off = s ∧ st.blk off = none
  refused : st'.refusals ≠ st.refusals → off = 0

theorem Ok.strdup (h : st.Ok) (s : CString) : ∃ st' off, st.strdup s = (st', off) ∧ st.StrdupSpec st' off s := by
  rcases st.strdup_cases h.blocks.used_pos s with ⟨hlt, e⟩ | ⟨hle, e⟩
  · refine ⟨_, _, e, h.refuse, keeps_refuse, ⟨rfl, rfl, rfl, rfl⟩, rfl, rfl, .inl rfl,
      spends_of_refused hlt (lt_succ_self _), ?_, fun _ => rfl⟩
    intro hr
    simp [Store.refuse] at hr
  · refine ⟨_, _, e, h.withStr s, h.blocks.keeps_withStr s, ⟨rfl, rfl, rfl, rfl⟩, rfl, rfl,
      .inr ⟨s.length + 1, ?_⟩, ?_, ?_, fun hr => absurd rfl hr⟩
    · show (st.withBlock .str (s.length + 1)).blk st.used = _
      rw [blk_withBlock, if_pos rfl]
    · exact ⟨le_refl _, fun _ => ⟨st.used_withStr s, rfl⟩, fun hlt => by omega⟩
    · intro _
      exact ⟨ne_of_gt h.blocks.used_pos, Function.update_self .., h.blocks.fresh (le_refl _)⟩

/-! ### Writing into the arrays -/

theorem BlocksOk.congr (h : st.BlocksOk) (hu : st'.used = st.used) (hb : st'.blk = st.blk) (hi : st'.init = st.init) :
    st'.BlocksOk := by
  refine ⟨?_, ?_, ?_, ?_, ?_, ?_⟩
  · rw [hb]
    exact h.zero
  · rw [hu]
    exact h.used_pos
  · rw [hu, hb]
    exact h.fresh
  · rw [hb]
    exact h.pos
  · rw [hb, hi]
    exact h.init_le
  · rw [hb, hi]
    exact h.init_none

theorem Ok.write (h : st.Ok) (hst : st' = { st with word := st'.word }) (hb : st.blk b = some (k, c))
    (hsame : ∀ {b' w}, b' ≠ b → st'.word b' w = st.word b' w)
    (hkeys : k = .keys → ∀ i < st.count, st.StrOk (st'.word st.keysOff i))
    (helem : k.IsArray → ∀ j < st.init b, ∀ x < 2, st.StrOk (st'.word b (k.words * j + x)))
    (hhead : ∀ {k' w}, st.Head k' b w → st.ArrayOk k' (st'.word b w) (st'.word b (w + 1)) (st'.word b (w + 2))) :
    st'.Ok := by
  generalize st'.word = f at hst hsame hkeys helem hhead
  subst hst
  have hle : st.Le { st with word := f } := ⟨fun hb => hb, fun _ => le_refl _⟩
  refine ⟨h.blocks.congr rfl rfl rfl, h.keys, h.values, h.count_le, ?_, ?_, ?_⟩
  · intro i hi
    by_cases hkb : st.keysOff = b
    · exact hkeys (blk_unique hb (hkb ▸ h.keys)).1 i hi
    · show st.StrOk (f st.keysOff i)
      rw [hsame hkb]
      exact h.keyStr hi
  · intro b' k' c' j hb' hk' hj
    by_cases he : b' = b
    · subst he
      obtain ⟨rfl, -⟩ := blk_unique hb hb'
      exact helem hk' j hj
    · have hold : st.ElemOk k' b' j := h.elems hb' hk' hj
      exact hold.mono hle fun _ => hsame he
  · intro k' b' w hh
    have hge : ({ st with word := f } : Store).Le st := ⟨fun hb => hb, fun _ => le_refl _⟩
    have hh : st.Head k' b' w := hh.mono hge
    by_cases he : b' = b
    · subst he
      exact hhead hh
    · exact (h.heads hh).mono hle fun _ => hsame he

theorem Ok.setKey (h : st.Ok) {v} (hi : st.count ≤ i) : (st.setWord st.keysOff i v).Ok := by
  refine h.write rfl h.keys (fun hne => by simp [setWord, hne]) (fun _ i' hi' => ?_) (by simp) fun hh => ?_
  · rw [word_setWord, if_neg (by omega)]
    exact h.keyStr hi'
  · obtain ⟨k', c', hb, hk, -⟩ := hh.exists_blk h.blocks
    obtain rfl := (blk_unique h.keys hb).1
    simp at hk

theorem Ok.setHead (h : st.Ok) (hh : st.Head k b w) (hst : st' = { st with word := st'.word })
    (hfar : ∀ {b' v}, b' ≠ b ∨ v < w ∨ w + 3 ≤ v → st'.word b' v = st.word b' v)
    (harr : st.ArrayOk k (st'.word b w) (st'.word b (w + 1)) (st'.word b (w + 2))) : st'.Ok := by
  obtain ⟨k₀, c, hb, hk₀, -⟩ := hh.exists_blk h.blocks
  refine h.write hst hb (fun hne => hfar (.inl hne)) (fun hk => by simp [hk] at hk₀) ?_ ?_
  · intro hk j hj x hx
    rw [hfar (.inr (hh.elem_far hb hk hx))]
    exact h.elems hb hk hj x hx
  · intro k' w' hh'
    rcases hh.eq_or_far hh' with ⟨rfl, rfl⟩ | hlt | hlt
    · exact harr
    · rw [hfar (.inr (by omega)), hfar (.inr (by omega)), hfar (.inr (by omega))]
      exact h.heads hh'
    · rw [hfar (.inr (by omega)), hfar (.inr (by omega)), hfar (.inr (by omega))]
      exact h.heads hh'

theorem Ok.clearHead (h : st.Ok) (hh : st.Head k b w) : (st.clearHead b w).Ok := by
  refine h.setHead hh rfl (fun hfar => ?_) (.inl ?_)
  · rw [word_clearHead, if_neg (by omega)]
  · simp [word_clearHead]

section Elem

variable {o o' : Nat}

theorem elemOk_setElem (hk : k.IsArray) (ho : st.StrOk o) (ho' : st.StrOk o') : (st.setElem k b n o o').ElemOk k b n := by
  intro x hx
  rw [st.word_setElem hk (lt_of_lt_of_le hx hk.two_le), if_pos ⟨rfl, rfl⟩]
  split
  · exact ho
  · rw [if_pos (by omega)]
    exact ho'

theorem headOk_setElem : (st.setElem .patches b n o o').HeadOk .transforms b (5 * n + 2) := by
  have hzero : ∀ {x}, 2 ≤ x → x < 5 → (st.setElem .patches b n o o').word b (5 * n + x) = 0 := by
    intro x hx hx'
    refine (st.word_setElem (.inl rfl) hx').trans ?_
    rw [if_pos ⟨rfl, rfl⟩, if_neg (by omega), if_neg (by omega)]
  exact .inl ⟨hzero (by omega) (by omega), hzero (x := 3) (by omega) (by omega), hzero (x := 4) (by omega) (by omega)⟩

theorem Ok.setElem (h : st.Ok) (hb : st.blk b = some (k, c)) (hk : k.IsArray) (ho : st.StrOk o) (ho' : st.StrOk o') :
    (st.setElem k b n o o').Ok := by
  have hword : ∀ {x j}, x < k.words → j ≠ n → (st.setElem k b n o o').word b (k.words * j + x) = st.word b (k.words * j + x) :=
    fun hx hne => (st.word_setElem hk hx).trans (if_neg fun hc => hne hc.2)
  refine h.write rfl hb (word_setElem_ne _) (fun he => ?_) (fun _ j hj => ?_) fun hh => ?_
  · subst he
    exact absurd hk (by decide)
  · by_cases he : j = n
    · subst he
      exact elemOk_setElem hk ho ho'
    · intro x hx
      rw [hword (lt_of_lt_of_le hx hk.two_le) he]
      exact h.elems hb hk hj x hx
  · cases hh with
    | list hb' =>
      obtain rfl := (blk_unique hb hb').1
      exact absurd hk (by decide)
    | @patch _ _ j hb' hj =>
      obtain rfl := (blk_unique hb hb').1
      by_cases he : j = n
      · subst he
        exact headOk_setElem
      · rw [words_patches] at hword
        rw [hword (x := 2) (by omega) he, hword (x := 3) (by omega) he, hword (x := 4) (by omega) he]
        exact h.heads (.patch hb' hj)

end Elem

/-! ### More of an array is written -/

theorem init_markInit : (st.markInit b n).init b' = if b' = b then max (st.init b) n else st.init b' :=
  Function.update_apply ..

theorem lt_init_markInit (h : j < (st.markInit b n).init b') : j < st.init b' ∨ (b' = b ∧ j < n) := by
  rw [init_markInit] at h
  split at h
  · rename_i he
    subst he
    rcases lt_max_iff.1 h with h | h
    · exact .inl h
    · exact .inr ⟨rfl, h⟩
  · exact .inl h

theorem le_markInit : st.Le (st.markInit b n) where
  blk := fun hb => hb
  init := by
    intro b'
    rw [init_markInit]
    split
    · rename_i he
      subst he
      exact le_max_left ..
    · exact le_refl _

theorem BlocksOk.markInit (h : st.BlocksOk) (hb : st.blk b = some (k, c)) (hn : n ≤ c) : (st.markInit b n).BlocksOk := by
  refine ⟨h.zero, h.used_pos, h.fresh, h.pos, ?_, ?_⟩
  · intro b' k' c' hb'
    rw [init_markInit]
    split
    · rename_i he
      subst he
      have hc := (blk_unique hb hb').2
      have := h.init_le hb
      omega
    · exact h.init_le hb'
  · intro b' hb'
    have hnone : st.blk b' = none := hb'
    rw [init_markInit, if_neg]
    · exact h.init_none hnone
    · rintro rfl
      rw [hnone] at hb
      simp at hb

theorem Ok.markInit (h : st.Ok) (hb : st.blk b = some (k, c)) (hn : n ≤ c)
    (helem : k.IsArray → ∀ j < n, st.ElemOk k b j) (hhead : k = .patches → ∀ j < n, st.HeadOk .transforms b (5 * j + 2)) :
    (st.markInit b n).Ok := by
  have hle : st.Le (st.markInit b n) := le_markInit
  refine ⟨h.blocks.markInit hb hn, h.keys, h.values, h.count_le, fun hi => (h.keyStr hi).mono hle, ?_, ?_⟩
  · intro b' k' c' j hb' hk' hj
    refine ElemOk.mono hle (fun _ => rfl) ?_
    rcases lt_init_markInit hj with hlt | ⟨rfl, hlt⟩
    · exact h.elems hb' hk' hlt
    · obtain ⟨rfl, -⟩ := blk_unique hb hb'
      exact helem hk' j hlt
  · intro k' b' w hh
    refine HeadOk.mono hle (fun _ => rfl) ?_
    cases hh with
    | list hb' hi => exact h.heads (.list hb' hi)
    | patch hb' hj =>
      rcases lt_init_markInit hj with hlt | ⟨rfl, hlt⟩
      · exact h.heads (.patch hb' hlt)
      · exact hhead (blk_unique hb hb').1 _ hlt

end Store

end CloudeLoader
