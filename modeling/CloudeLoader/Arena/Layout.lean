import CloudeLoader.Arena.Store
import CloudeLoader.Arena.Trace

/-!
# How the bytes lay a store out

`Lay s st` says that the bytes of the arena `s` hold the store `st`: the header has its fields, every word of a block lies
at its place, every string is terminated, and memory above `used` has not been touched.
-/

namespace CloudeLoader

open ByteMemory Arena Function List Option Nat

variable {m : Mem} {n v : Nat} {ws : List Event}

/-! ### The trace -/

structure Obj where
  kind : Kind
  off : Nat
  size : Nat
  deriving DecidableEq, Repr

def Event.block? : Event → Option Obj
  | alloc k off n => some ⟨k, off, n⟩
  | _ => none

namespace Arena

def blocks (s : Arena) : List Obj := s.trace.filterMap Event.block?

def objects (s : Arena) : List Obj := s.blocks ++ [⟨.header, 0, 24⟩]

/-- The blocks lie apart from each other and from the header, and every write is inside one. -/
structure TraceOk (s : Arena) : Prop where
  sorted : s.objects.Pairwise fun x y => y.off + y.size ≤ x.off
  aligned : ∀ x ∈ s.objects, x.off % 8 = 0
  below : ∀ x ∈ s.objects, x.off + x.size ≤ s.used
  writes : ∀ {k b a n}, Event.write k b a n ∈ s.trace → ∃ x ∈ s.objects, x.kind = k ∧ x.off = b ∧ b ≤ a ∧ a + n ≤ b + x.size

end Arena

/-- The bytes of the arena are those of the store, which says what each block holds. -/
structure Lay (s : Arena) (st : Store) : Prop where
  size : s.size = shmIpcSize
  used : s.used = st.used
  keysOff : s.keysOff = st.keysOff
  valuesOff : s.valuesOff = st.valuesOff
  count : s.count = st.count
  capacity : s.capacity = st.capacity
  used_mod : st.used % 8 = 0
  used_le : st.used ≤ shmIpcSize
  word : ∀ {b k c w}, st.blk b = some (k, c) → k ≠ .str → 4 * w + 4 ≤ k.stride * c → load32 s.mem (b + 4 * w) = st.word b w
  fresh : ∀ b w, st.used ≤ b → load32 s.mem (b + 4 * w) = st.word b w
  str : ∀ {b c}, st.blk b = some (.str, c) → HasBytes s.mem b (st.str b).terminated ∧ c = (st.str b).length + 1
  noStr : ∀ {b}, (∀ c, st.blk b ≠ some (.str, c)) → st.str b = ⟨[], by simp⟩
  pos : ∀ {b k c}, st.blk b = some (k, c) → 0 < c
  obj : ∀ {b k c}, st.blk b = some (k, c) → ⟨k, b, align8 (k.stride * c)⟩ ∈ s.blocks
  refusals : s.refusals = st.refusals
  trace : s.TraceOk

/-! ### Where blocks lie -/

variable {s : Arena} {st : Store} {b b' c c' w : Nat} {k k' : Kind}

theorem Lay.blk_ge (h : Lay s st) (hb : st.blk b = some (k, c)) : 24 ≤ b := by
  have hs := h.trace.sorted
  unfold Arena.objects at hs
  rw [pairwise_append] at hs
  exact hs.2.2 _ (h.obj hb) ⟨.header, 0, 24⟩ (by simp)

theorem Lay.blk_zero (h : Lay s st) : st.blk 0 = none := by
  by_contra hne
  obtain ⟨⟨k, c⟩, hb⟩ := ne_none_iff_exists'.1 hne
  have := h.blk_ge hb
  omega

theorem Lay.blk_end (h : Lay s st) (hb : st.blk b = some (k, c)) : b + k.stride * c ≤ st.used := by
  have h1 := h.trace.below ⟨k, b, _⟩ (mem_append_left _ (h.obj hb))
  have h2 := align8_ge (k.stride * c)
  rw [h.used] at h1
  simp only at h1
  omega

theorem Arena.TraceOk.disjoint {s : Arena} (h : s.TraceOk) {x y : Obj} (hx : x ∈ s.objects) (hy : y ∈ s.objects)
    (hne : x ≠ y) : x.off + x.size ≤ y.off ∨ y.off + y.size ≤ x.off := by
  have hp : s.objects.Pairwise fun x y => x.off + x.size ≤ y.off ∨ y.off + y.size ≤ x.off :=
    h.sorted.imp fun hxy => .inr hxy
  have : Std.Symm fun x y : Obj => x.off + x.size ≤ y.off ∨ y.off + y.size ≤ x.off := ⟨fun _ _ => Or.symm⟩
  exact hp.forall hx hy hne

theorem Lay.disjoint (h : Lay s st) (hb : st.blk b = some (k, c)) (hb' : st.blk b' = some (k', c')) (hne : b ≠ b') :
    b + k.stride * c ≤ b' ∨ b' + k'.stride * c' ≤ b := by
  have h1 := align8_ge (k.stride * c)
  have h2 := align8_ge (k'.stride * c')
  have := h.trace.disjoint (mem_append_left _ (h.obj hb)) (mem_append_left _ (h.obj hb'))
    (fun he => hne (by injection he))
  simp only at this
  omega

/-! ### Writing a block -/

private theorem Arena.TraceOk.write {s : Arena} (h : s.TraceOk) {k : Kind} {b a : Nat} {x : Obj}
    (hx : x ∈ s.objects) (hk : x.kind = k) (hb : x.off = b) (ha : b ≤ a) (hn : a + n ≤ b + x.size)
    (hu : load32 m 4 = s.used) : Arena.TraceOk ⟨m, .write k b a n :: s.trace⟩ where
  sorted := h.sorted
  aligned := h.aligned
  below := by
    intro y hy
    have := h.below y hy
    show y.off + y.size ≤ load32 m 4
    omega
  writes := by
    intro k' b' a' n' hw
    rcases mem_cons.1 hw with he | hw
    · injection he with h1 h2 h3 h4
      subst h1 h2 h3 h4
      exact ⟨x, hx, hk, hb, ha, hn⟩
    · exact h.writes hw

theorem Lay.of_write (h : Lay s st) (hb : st.blk b = some (k, c)) (hk : k ≠ .str) {a : Nat}
    (ha : b ≤ a) (hpos : 0 < n) (hn : a + n ≤ b + k.stride * c) (hfrm : ∀ i, i < a ∨ a + n ≤ i → m i = s.mem i)
    {word : Nat → Nat → Nat} (hw : ∀ w, 4 * w + 4 ≤ k.stride * c → load32 m (b + 4 * w) = word b w)
    (hw' : ∀ b' w, b' ≠ b → word b' w = st.word b' w) :
    Lay ⟨m, .write k b a n :: s.trace⟩ { st with word := word } := by
  have hge := h.blk_ge hb
  have hend := h.blk_end hb
  have hhdr : ∀ o, o + 4 ≤ 24 → load32 m o = load32 s.mem o := fun o ho =>
    EqOn.load32_eq (p := 0) (fun i _ hi => hfrm i (by omega)) (by omega) ho
  have hoth : ∀ {b' k' c'}, st.blk b' = some (k', c') → b' ≠ b → EqOn m s.mem b' (b' + k'.stride * c') := by
    intro b' k' c' hb' hne i h1 h2
    have := h.disjoint hb hb' hne.symm
    exact hfrm i (by omega)
  refine ⟨?_, ?_, ?_, ?_, ?_, ?_, h.used_mod, h.used_le, ?_, ?_, ?_, h.noStr, h.pos, h.obj, ?_, ?_⟩
  · exact (hhdr 0 (by omega)).trans h.size
  · exact (hhdr 4 (by omega)).trans h.used
  · exact (hhdr 8 (by omega)).trans h.keysOff
  · exact (hhdr 12 (by omega)).trans h.valuesOff
  · exact (hhdr 16 (by omega)).trans h.count
  · exact (hhdr 20 (by omega)).trans h.capacity
  · intro b' k' c' w hb' hk' hlt
    by_cases he : b' = b
    · subst he
      rw [show st.blk b' = some (k', c') from hb'] at hb
      cases hb
      exact hw w hlt
    · show load32 m (b' + 4 * w) = word b' w
      rw [(hoth hb' he).load32_eq (by omega) (by omega), hw' b' w he]
      exact h.word hb' hk' hlt
  · intro b' w hu
    have hu : st.used ≤ b' := hu
    show load32 m (b' + 4 * w) = word b' w
    rw [EqOn.load32_eq (p := b') (q := b' + 4 * w + 4) (fun i h1 _ => hfrm i (by omega))
      (by omega) (by omega), hw' b' w (by omega)]
    exact h.fresh b' w hu
  · intro b' c' hb'
    have hne : b' ≠ b := by
      intro he
      subst he
      rw [hb'] at hb
      injection hb with hb
      injection hb with h1 h2
      exact hk h1.symm
    have hstr := h.str hb'
    refine ⟨hstr.1.of_eqOn ((hoth hb' hne).mono (le_refl _) ?_), hstr.2⟩
    rw [hstr.2]
    simp [Kind.stride]
  · exact h.refusals
  · have h1 := align8_ge (k.stride * c)
    exact h.trace.write (mem_append_left _ (h.obj hb)) rfl rfl ha (by simp only; omega) (hhdr 4 (by omega))

theorem Lay.store (h : Lay s st) {p} (hb : st.blk b = some (k, c)) (hk : k ≠ .str)
    (hp : p = ⟨k, b, b + 4 * w⟩) (hw : 4 * w + 4 ≤ k.stride * c) (hv : v < 2 ^ 32) :
    Lay (s.store p v) (st.setWord b w v) := by
  subst hp
  show Lay ⟨store32 s.mem (b + 4 * w) v, .write k b (b + 4 * w) 4 :: s.trace⟩ _
  refine h.of_write hb hk (by omega) (by omega) (by omega) ?_ ?_ ?_
  · intro i hi
    exact if_neg (by omega)
  · intro w' hw'
    by_cases he : w' = w
    · subst he
      rw [load32_store32_same, mod_eq_of_lt hv]
      simp
    · rw [load32_store32_ne _ (by omega)]
      simp only [he, and_false, ↓reduceIte]
      exact h.word hb hk hw'
  · intro b' w' hne
    simp [hne]

theorem Lay.memset (h : Lay s st) {p m} (hb : st.blk b = some (k, c)) (hk : k ≠ .str)
    (hp : p = ⟨k, b, b + 4 * w⟩) (hn : n = 4 * m) (hpos : 0 < m) (hw : 4 * (w + m) ≤ k.stride * c) :
    Lay (s.memset p n) (st.zeroWords b w m) := by
  subst hp hn
  show Lay ⟨fill s.mem (b + 4 * w) (4 * m) 0, .write k b (b + 4 * w) (4 * m) :: s.trace⟩ _
  refine h.of_write hb hk (by omega) (by omega) (by omega) ?_ ?_ ?_
  · intro i hi
    exact if_neg (by omega)
  · intro w' hw'
    by_cases he : w ≤ w' ∧ w' < w + m
    · rw [load32_fill _ (by omega) (by omega)]
      simp [he]
    · rw [(eqOn_fill s.mem (p := b + 4 * w') (q := b + 4 * w' + 4) (by omega)).load32_eq (by omega) (by omega)]
      simp only [he, and_false, ↓reduceIte]
      exact h.word hb hk hw'
  · intro b' w' hne
    simp [hne]

theorem Lay.memcpy (h : Lay s st) {p src w' m} (hb : st.blk b = some (k, c)) (hk : k ≠ .str)
    (hp : p = ⟨k, b, b + 4 * w⟩) (hb' : st.blk b' = some (k', c')) (hk' : k' ≠ .str) (hsrc : src = b' + 4 * w')
    (hn : n = 4 * m) (hpos : 0 < m) (hw : 4 * (w + m) ≤ k.stride * c) (hw' : 4 * (w' + m) ≤ k'.stride * c') :
    Lay (s.memcpy p src n) (st.copyWords b w b' w' m) := by
  subst hp hsrc hn
  show Lay ⟨copy s.mem (b + 4 * w) (b' + 4 * w') (4 * m), .write k b (b + 4 * w) (4 * m) :: s.trace⟩ _
  refine h.of_write hb hk (by omega) (by omega) (by omega) ?_ ?_ ?_
  · intro i hi
    exact if_neg (by omega)
  · intro x hx
    by_cases he : w ≤ x ∧ x < w + m
    · rw [show b + 4 * x = b + 4 * w + 4 * (x - w) by omega, load32_copy _ (by omega)]
      simp only [he, and_self, ↓reduceIte]
      rw [show b' + 4 * w' + 4 * (x - w) = b' + 4 * (w' + (x - w)) by omega]
      exact h.word hb' hk' (by omega)
    · rw [(eqOn_copy s.mem (p := b + 4 * x) (q := b + 4 * x + 4) (by omega)).load32_eq (by omega) (by omega)]
      simp only [he, and_false, ↓reduceIte]
      exact h.word hb hk hx
  · intro b'' w'' hne
    simp [hne]

/-! ### Writing the header -/

theorem Lay.of_header (h : Lay s st) {o ko vo cn cp : Nat} (ho : o + 4 ≤ 24)
    (hfrm : ∀ i, 24 ≤ i → m i = s.mem i) (h0 : load32 m 0 = s.size) (h4 : load32 m 4 = s.used)
    (h8 : load32 m 8 = ko) (h12 : load32 m 12 = vo) (h16 : load32 m 16 = cn) (h20 : load32 m 20 = cp) :
    Lay ⟨m, .write .header 0 o 4 :: s.trace⟩
      { st with keysOff := ko, valuesOff := vo, count := cn, capacity := cp } := by
  have hused : 24 ≤ st.used := by
    have := h.trace.below ⟨.header, 0, 24⟩ (by simp [Arena.objects])
    rw [h.used] at this
    simpa using this
  have habv : ∀ {p q}, 24 ≤ p → EqOn m s.mem p q := fun hp i h1 _ => hfrm i (by omega)
  refine ⟨h0.trans h.size, h4.trans h.used, h8, h12, h16, h20, h.used_mod, h.used_le, ?_, ?_, ?_, h.noStr, h.pos, h.obj,
    ?_, ?_⟩
  · intro b k c w hb hk hlt
    have hge := h.blk_ge hb
    show load32 m (b + 4 * w) = st.word b w
    rw [(habv (q := b + 4 * w + 4) (by omega)).load32_eq (by omega) (by omega)]
    exact h.word hb hk hlt
  · intro b w hu
    have hu : st.used ≤ b := hu
    show load32 m (b + 4 * w) = st.word b w
    rw [(habv (q := b + 4 * w + 4) (by omega)).load32_eq (by omega) (by omega)]
    exact h.fresh b w hu
  · intro b c hb
    have hge := h.blk_ge hb
    exact ⟨(h.str hb).1.of_eqOn (habv hge), (h.str hb).2⟩
  · exact h.refusals
  · exact h.trace.write (x := ⟨.header, 0, 24⟩) (by simp [Arena.objects]) rfl rfl (by omega) (by simp only; omega) h4

private theorem store32_header (s : Arena) {o} (ho : o + 4 ≤ 24) (i : Nat) (hi : 24 ≤ i) :
    store32 s.mem o v i = s.mem i :=
  if_neg (by omega)

private theorem Lay.setHeader (h : Lay s st) (hv : v < 2 ^ 32) (o : Nat) (hlow : 8 ≤ o) (hhigh : o ≤ 20) (hmod : o % 4 = 0) :
    Lay ⟨store32 s.mem o v, .write .header 0 o 4 :: s.trace⟩ { st with
      keysOff := if o = 8 then v else st.keysOff
      valuesOff := if o = 12 then v else st.valuesOff
      count := if o = 16 then v else st.count
      capacity := if o = 20 then v else st.capacity } := by
  have hload : ∀ {i n}, load32 s.mem i = n → i % 4 = 0 → load32 (store32 s.mem o v) i = if o = i then v else n := by
    intro i n hn hi
    split
    · next hoi => rw [← hoi, load32_store32_same, mod_eq_of_lt hv]
    · exact (load32_store32_ne _ (by omega)).trans hn
  exact h.of_header (by omega) (store32_header s (by omega)) (load32_store32_ne _ (by omega)) (load32_store32_ne _ (by omega))
    (hload h.keysOff rfl) (hload h.valuesOff rfl) (hload h.count rfl) (hload h.capacity rfl)

theorem Lay.setKeysOff (h : Lay s st) (hv : v < 2 ^ 32) : Lay (s.setKeysOff v) { st with keysOff := v } :=
  h.setHeader hv 8 (by decide) (by decide) rfl

theorem Lay.setValuesOff (h : Lay s st) (hv : v < 2 ^ 32) : Lay (s.setValuesOff v) { st with valuesOff := v } :=
  h.setHeader hv 12 (by decide) (by decide) rfl

theorem Lay.setCount (h : Lay s st) (hv : v < 2 ^ 32) : Lay (s.setCount v) { st with count := v } :=
  h.setHeader hv 16 (by decide) (by decide) rfl

theorem Lay.setCapacity (h : Lay s st) (hv : v < 2 ^ 32) : Lay (s.setCapacity v) { st with capacity := v } :=
  h.setHeader hv 20 (by decide) (by decide) rfl

/-! ### Allocating -/

theorem Lay.noSpace (h : Lay s st) (n : Nat) : Lay (s.log (.noSpace k n)) st.refuse where
  size := h.size
  used := h.used
  keysOff := h.keysOff
  valuesOff := h.valuesOff
  count := h.count
  capacity := h.capacity
  used_mod := h.used_mod
  used_le := h.used_le
  word := h.word
  fresh := h.fresh
  str := h.str
  noStr := h.noStr
  pos := h.pos
  obj := h.obj
  refusals := by
    show List.countP Event.isNoSpace (.noSpace k n :: s.trace) = st.refusals + 1
    rw [countP_cons_of_pos rfl]
    exact congrArg (· + 1) h.refusals
  trace := ⟨h.trace.sorted, h.trace.aligned, h.trace.below, fun hw => h.trace.writes (by simpa [Arena.log] using hw)⟩

theorem Lay.used_ge (h : Lay s st) : 24 ≤ st.used := by
  have := h.trace.below ⟨.header, 0, 24⟩ (by simp [Arena.objects])
  rw [h.used] at this
  simpa using this

theorem Lay.blk_lt (h : Lay s st) (hb : st.blk b = some (k, c)) : b < st.used := by
  have h1 := h.blk_end hb
  have h2 := mul_pos (stride_pos k) (h.pos hb)
  omega

private def FillsBlock (k : Kind) (off n : Nat) (ws : List Event) : Prop :=
  ∀ e ∈ ws, ∃ a l, e = .write k off a l ∧ off ≤ a ∧ a + l ≤ off + n

private def allocTrace (s : Arena) (k : Kind) (off n : Nat) (ws : List Event) : List Event :=
  ws ++ .alloc k off n :: .write .header 0 4 4 :: s.trace

private theorem blocks_allocTrace {off} (hws : FillsBlock k off n ws) :
    Arena.blocks ⟨m, allocTrace s k off n ws⟩ = ⟨k, off, n⟩ :: s.blocks := by
  have hnil : ws.filterMap Event.block? = [] := by
    rw [filterMap_eq_nil_iff]
    intro e he
    obtain ⟨a, l, rfl, -⟩ := hws e he
    rfl
  unfold Arena.blocks allocTrace
  rw [filterMap_append, hnil]
  rfl

private theorem objects_allocTrace {off} (hws : FillsBlock k off n ws) :
    Arena.objects ⟨m, allocTrace s k off n ws⟩ = ⟨k, off, n⟩ :: s.objects := by
  rw [Arena.objects, blocks_allocTrace hws]
  rfl

private theorem Arena.TraceOk.alloc (h : s.TraceOk) (hmod : s.used % 8 = 0)
    (hws : FillsBlock k s.used n ws) (h4 : load32 m 4 = s.used + n) :
    Arena.TraceOk ⟨m, allocTrace s k s.used n ws⟩ := by
  refine ⟨?_, ?_, ?_, ?_⟩
  · rw [objects_allocTrace hws, pairwise_cons]
    exact ⟨fun y hy => h.below y hy, h.sorted⟩
  · rw [objects_allocTrace hws]
    intro x hx
    rcases mem_cons.1 hx with rfl | hx
    · exact hmod
    · exact h.aligned x hx
  · rw [objects_allocTrace hws]
    intro x hx
    show x.off + x.size ≤ load32 m 4
    rw [h4]
    rcases mem_cons.1 hx with rfl | hx
    · exact le_refl _
    · have := h.below x hx
      omega
  · intro k' b a l hw
    rw [objects_allocTrace hws]
    simp only [allocTrace, mem_append, mem_cons, reduceCtorEq, false_or] at hw
    rcases hw with hw | hw | hw
    · obtain ⟨a', l', he, h1, h2⟩ := hws _ hw
      injection he with e1 e2 e3 e4
      subst e1 e2 e3 e4
      exact ⟨_, mem_cons_self, rfl, rfl, h1, h2⟩
    · injection hw with e1 e2 e3 e4
      subst e1 e2 e3 e4
      exact ⟨⟨.header, 0, 24⟩, mem_cons_of_mem _ (by simp [Arena.objects]), rfl, rfl, by omega, by simp⟩
    · obtain ⟨x, hx, hx'⟩ := h.writes hw
      exact ⟨x, mem_cons_of_mem _ hx, hx'⟩

private theorem refusals_allocTrace {off} (hws : FillsBlock k off n ws) :
    Arena.refusals ⟨m, allocTrace s k off n ws⟩ = s.refusals := by
  have hnone : ws.countP Event.isNoSpace = 0 := by
    rw [countP_eq_zero]
    intro e he
    obtain ⟨a, l, rfl, -⟩ := hws e he
    simp [Event.isNoSpace]
  simp [Arena.refusals, allocTrace, hnone, Event.isNoSpace]

private theorem blk_update_cases {blk : Nat → Option (Kind × Nat)} {off}
    (hb : update blk off (some (k, c)) b = some (k', c')) :
    (b = off ∧ k' = k ∧ c' = c) ∨ (b ≠ off ∧ blk b = some (k', c')) := by
  by_cases he : b = off
  · subst he
    rw [update_self] at hb
    injection hb with hb
    injection hb with h1 h2
    exact .inl ⟨rfl, h1.symm, h2.symm⟩
  · rw [update_of_ne he] at hb
    exact .inr ⟨he, hb⟩

theorem Lay.blk_used (h : Lay s st) : st.blk st.used = none := by
  by_contra hne
  obtain ⟨⟨k', c'⟩, hb⟩ := ne_none_iff_exists'.1 hne
  exact absurd (h.blk_lt hb) (lt_irrefl _)

private theorem Lay.of_alloc (h : Lay s st) (hc : 0 < c) (hn : n = align8 (k.stride * c))
    (hfit : st.used + n ≤ shmIpcSize) {e} (hws : FillsBlock k s.used n e)
    (hfrm : ∀ i, i < 4 ∨ 8 ≤ i → i < st.used ∨ st.used + n ≤ i → m i = s.mem i) (h4 : load32 m 4 = s.used + n)
    (harr : k ≠ .str → EqOn m s.mem st.used (st.used + n)) {f : Nat → CString}
    (hstr : k = .str → HasBytes m st.used (f st.used).terminated ∧ c = (f st.used).length + 1)
    (hf : ∀ b, b ≠ st.used ∨ k ≠ .str → f b = st.str b) : Lay ⟨m, allocTrace s k s.used n e⟩
      { st with used := st.used + n, blk := update st.blk st.used (some (k, c)), str := f } := by
  have hge := h.used_ge
  have hn8 := align8_mod (k.stride * c)
  have hnc := align8_ge (k.stride * c)
  have hhdr : ∀ o, o + 4 ≤ 4 ∨ 8 ≤ o → o + 4 ≤ 24 → load32 m o = load32 s.mem o := fun o ho ho' =>
    EqOn.load32_eq (p := o) (q := o + 4) (fun i h1 h2 => hfrm i (by omega) (by omega)) (by omega) (by omega)
  have hold : ∀ {b k' c'}, st.blk b = some (k', c') → EqOn m s.mem b (b + k'.stride * c') := by
    intro b k' c' hb i h1 h2
    have h3 := h.blk_ge hb
    have h4 := h.blk_end hb
    exact hfrm i (by omega) (by omega)
  refine ⟨?_, ?_, ?_, ?_, ?_, ?_, ?_, hfit, ?_, ?_, ?_, ?_, ?_, ?_, ?_, ?_⟩
  · exact (hhdr 0 (by omega) (by omega)).trans h.size
  · exact h4.trans (by rw [h.used])
  · exact (hhdr 8 (by omega) (by omega)).trans h.keysOff
  · exact (hhdr 12 (by omega) (by omega)).trans h.valuesOff
  · exact (hhdr 16 (by omega) (by omega)).trans h.count
  · exact (hhdr 20 (by omega) (by omega)).trans h.capacity
  · have := h.used_mod
    show (st.used + n) % 8 = 0
    omega
  · intro b k' c' w hb hk' hlt
    show load32 m (b + 4 * w) = st.word b w
    rcases blk_update_cases hb with ⟨rfl, rfl, rfl⟩ | ⟨-, hb⟩
    · rw [(harr hk').load32_eq (by omega) (by omega)]
      exact h.fresh _ w (le_refl _)
    · rw [(hold hb).load32_eq (by omega) (by omega)]
      exact h.word hb hk' hlt
  · intro b w hu
    have hu : st.used + n ≤ b := hu
    show load32 m (b + 4 * w) = st.word b w
    rw [EqOn.load32_eq (p := b) (q := b + 4 * w + 4)
      (fun i h1 _ => hfrm i (by omega) (by omega)) (by omega) (by omega)]
    exact h.fresh b w (by omega)
  · intro b c' hb
    rcases blk_update_cases hb with ⟨rfl, rfl, rfl⟩ | ⟨hne, hb⟩
    · exact hstr rfl
    · show HasBytes m b (f b).terminated ∧ c' = (f b).length + 1
      rw [hf b (.inl hne)]
      have hs := h.str hb
      refine ⟨hs.1.of_eqOn ((hold hb).mono (le_refl _) ?_), hs.2⟩
      rw [hs.2]
      simp [Kind.stride]
  · intro b hb
    have hb : ∀ c', update st.blk st.used (some (k, c)) b ≠ some (.str, c') := hb
    show f b = _
    by_cases he : b = st.used
    · subst he
      have hks : k ≠ .str := by
        rintro rfl
        exact hb c (update_self ..)
      rw [hf _ (.inr hks)]
      exact h.noStr (by simp [h.blk_used])
    · rw [hf b (.inl he)]
      refine h.noStr fun c' => ?_
      have := hb c'
      rwa [update_of_ne he] at this
  · intro b k' c' hb
    rcases blk_update_cases hb with ⟨rfl, rfl, rfl⟩ | ⟨-, hb⟩
    · exact hc
    · exact h.pos hb
  · intro b k' c' hb
    rw [blocks_allocTrace hws]
    rcases blk_update_cases hb with ⟨rfl, rfl, rfl⟩ | ⟨-, hb⟩
    · rw [hn, h.used]
      exact mem_cons_self
    · exact mem_cons_of_mem _ (h.obj hb)
  · rw [refusals_allocTrace hws]
    exact h.refusals
  · exact h.trace.alloc (by rw [h.used]; exact h.used_mod) hws h4

private theorem Lay.salloc_eq (h : Lay s st) (hn : n ≤ 2 ^ 31) :
    salloc s k n = if st.used + align8 n > shmIpcSize then (s.log (.noSpace k (align8 n)), 0)
      else (⟨store32 s.mem 4 (s.used + align8 n), allocTrace s k s.used (align8 n) []⟩, s.used) := by
  have hle := h.used_le
  have hsz : shmIpcSize = 1048576 := rfl
  have e1 : u32 (u32 n + 7) / 8 * 8 = align8 n := by
    have hn' : u32 n = n := u32_of_lt (by omega)
    unfold align8
    rw [hn', u32_of_lt (by omega)]
  have e2 : u32 (s.used + align8 n) = st.used + align8 n := by
    rw [h.used, u32_of_lt (by unfold align8; omega)]
  unfold salloc
  simp only [e1, e2, h.size]
  rfl

private theorem Lay.salloc_pair (h : Lay s st) (hk : k ≠ .str) (hc : 0 < c) (hn : n = k.stride * c) (hle : n ≤ 2 ^ 31) :
    Lay (salloc s k n).1 (st.alloc k c).1 ∧ (salloc s k n).2 = (st.alloc k c).2 := by
  subst hn
  rw [h.salloc_eq hle]
  unfold Store.alloc
  split
  · exact ⟨h.noSpace _, rfl⟩
  · rename_i hfit
    have hge := h.used_ge
    have hsz : shmIpcSize = 1048576 := rfl
    refine ⟨?_, h.used⟩
    refine h.of_alloc hc rfl (by omega) (by simp [FillsBlock]) ?_ ?_ ?_ (fun e => absurd e hk) (fun _ _ => rfl)
    · intro i h1 _
      exact if_neg (by omega)
    · rw [load32_store32_same, h.used, mod_eq_of_lt (by omega)]
    · exact fun _ => eqOn_store32 s.mem (by omega)

private theorem Lay.strdup_pair (h : Lay s st) {str} (hle : str.length < 2 ^ 31) :
    Lay (shmStrdup s str).1 (st.strdup str).1 ∧ (shmStrdup s str).2 = (st.strdup str).2 := by
  have hlen : u32 (u32 str.length + 1) = str.length + 1 := by
    have hn' : u32 str.length = str.length := u32_of_lt (by omega)
    rw [hn', u32_of_lt (by omega)]
  have hst : Kind.stride .str * (str.length + 1) = str.length + 1 := by simp [Kind.stride]
  have htake : str.terminated.take (str.length + 1) = str.terminated :=
    take_of_length_le (le_of_eq (CString.terminated_length str))
  unfold shmStrdup Store.strdup Store.alloc
  simp only [hlen, hst, htake, h.salloc_eq (n := str.length + 1) (by omega)]
  split
  · exact ⟨h.noSpace _, rfl⟩
  · rename_i hfit
    have hge := h.used_ge
    have hsz : shmIpcSize = 1048576 := rfl
    have hal := align8_ge (str.length + 1)
    have h0 : st.used ≠ 0 := by omega
    simp only [h0, ↓reduceIte, h.used, and_true]
    have hlen' := CString.terminated_length str
    have := h.of_alloc (c := str.length + 1)
      (m := blit (store32 s.mem 4 (st.used + align8 (str.length + 1))) st.used str.terminated)
      (e := [.write .str st.used st.used str.terminated.length]) (f := update st.str st.used str)
      (by omega) (by rw [hst]) (by omega) ?_ ?_ ?_ (fun e => absurd rfl e) ?_ ?_
    · rw [h.used] at this
      simp only [Store.withBlock, hst]
      exact this
    · intro e he
      obtain rfl := mem_singleton.1 he
      rw [h.used]
      exact ⟨st.used, _, rfl, le_refl _, by omega⟩
    · intro i h1 h2
      exact (if_neg (by omega)).trans (if_neg (by omega))
    · rw [(eqOn_blit _ (p := 4) (q := 8) (by omega)).load32_eq (by omega) (by omega), load32_store32_same,
        h.used, mod_eq_of_lt (by omega)]
    · intro _
      rw [update_self]
      exact ⟨hasBytes_blit _ _ _, rfl⟩
    · intro b hb
      rcases hb with hb | hb
      · exact update_of_ne hb ..
      · exact absurd rfl hb

theorem Lay.salloc (h : Lay s st) (hk : k ≠ .str) (hc : 0 < c) (hn : n = k.stride * c) (hle : n ≤ 2 ^ 31) :
    ∃ s' st' off, salloc s k n = (s', off) ∧ st.alloc k c = (st', off) ∧ Lay s' st' := by
  obtain ⟨h1, h2⟩ := h.salloc_pair hk hc hn hle
  exact ⟨(CloudeLoader.salloc s k n).1, _, (CloudeLoader.salloc s k n).2, rfl, Prod.ext rfl h2.symm, h1⟩

theorem Lay.strdup (h : Lay s st) {str} (hle : str.length < 2 ^ 31) :
    ∃ s' st' off, shmStrdup s str = (s', off) ∧ st.strdup str = (st', off) ∧ Lay s' st' := by
  obtain ⟨h1, h2⟩ := h.strdup_pair hle
  exact ⟨(shmStrdup s str).1, _, (shmStrdup s str).2, rfl, Prod.ext rfl h2.symm, h1⟩

end CloudeLoader
