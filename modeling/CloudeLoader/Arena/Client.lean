import CloudeLoader.Arena.Simulation

/-!
# Programs that use the arena

A client of the arena makes one call after the other and passes on the pointers it was given.
-/

namespace CloudeLoader

open ByteMemory Arena List

/-- A call into the arena.  `list` and `patch` say which of the pointers returned so far is passed. -/
inductive Call
  | hashmapInit
  | hashmapAddKey (key : CString)
  | hashmapRemove (key : CString)
  | patchlistAdd (list : Nat) (file find : CString)
  | patchAddTransform (patch : Nat) (mtch replace : CString)
  deriving DecidableEq

def Call.strings : Call → List CString
  | hashmapInit => []
  | hashmapAddKey key => [key]
  | hashmapRemove key => [key]
  | patchlistAdd _ file find => [file, find]
  | patchAddTransform _ mtch replace => [mtch, replace]

def maxFrameSize : Nat := 16 * 1024 * 1024

structure Client where
  arena : Arena
  lists : List Ptr
  patches : List Ptr

namespace Client

def exec (c : Client) : Call → Client
  | .hashmapInit => { c with arena := CloudeLoader.hashmapInit c.arena }
  | .hashmapAddKey key =>
    let (s, p) := CloudeLoader.hashmapAddKey c.arena key
    { c with arena := s, lists := c.lists ++ p.toList }
  | .hashmapRemove key => { c with arena := CloudeLoader.hashmapRemove c.arena key }
  | .patchlistAdd n file find =>
    match c.lists[n]? with
    | none => c
    | some list =>
      let (s, p) := CloudeLoader.patchlistAdd c.arena list file find
      { c with arena := s, patches := c.patches ++ p.toList }
  | .patchAddTransform n mtch replace =>
    match c.patches[n]? with
    | none => c
    | some patch => { c with arena := CloudeLoader.patchAddTransform c.arena patch mtch replace }

def run (c : Client) (calls : List Call) : Client := calls.foldl exec c

def start (m : Mem) : Client := ⟨initArena m, [], []⟩

theorem exec_extends (c : Client) (call : Call) : c.arena.Extends (c.exec call).arena := by
  cases call with
  | hashmapInit => exact hashmapInit_extends
  | hashmapAddKey key => exact hashmapAddKey_extends key
  | hashmapRemove key => exact hashmapRemove_extends key
  | patchlistAdd n file find =>
    simp only [exec]
    split
    · exact Extends.refl _
    · exact patchlistAdd_extends ..
  | patchAddTransform n mtch replace =>
    simp only [exec]
    split
    · exact Extends.refl _
    · exact patchAddTransform_extends ..

theorem run_extends (c : Client) (calls : List Call) : c.arena.Extends (c.run calls).arena := by
  induction calls generalizing c with
  | nil => exact Extends.refl _
  | cons call calls ih => exact (c.exec_extends call).trans (ih (c.exec call))

end Client

/-! ### The same program on the store -/

structure StoreClient where
  store : Store
  lists : List (Nat × Nat)
  patches : List (Nat × Nat)

namespace StoreClient

def exec (d : StoreClient) : Call → StoreClient
  | .hashmapInit => { d with store := d.store.initMap }
  | .hashmapAddKey key =>
    let (st, r) := d.store.addKey key
    { d with store := st, lists := d.lists ++ (r.map fun i => (st.valuesOff, i)).toList }
  | .hashmapRemove key => { d with store := d.store.remove key }
  | .patchlistAdd n file find =>
    match d.lists[n]? with
    | none => d
    | some (b, i) =>
      let (st, r) := d.store.addPatch b i file find
      { d with store := st, patches := d.patches ++ r.toList }
  | .patchAddTransform n mtch replace =>
    match d.patches[n]? with
    | none => d
    | some (b, j) => { d with store := d.store.addTransform b j mtch replace }

def run (d : StoreClient) (calls : List Call) : StoreClient := calls.foldl exec d

def start (m : Mem) : StoreClient := ⟨Store.initial m, [], []⟩

structure HandlesOk (d : StoreClient) : Prop where
  lists : ∀ x ∈ d.lists, ∃ n, d.store.blk x.1 = some (.values, n) ∧ x.2 < n
  patches : ∀ x ∈ d.patches, (∃ n, d.store.blk x.1 = some (.patches, n)) ∧ x.2 < d.store.init x.1

end StoreClient

/-- The client `c` of the bytes does what the client `d` of the store does. -/
structure Follows (c : Client) (d : StoreClient) : Prop where
  lay : Lay c.arena d.store
  ok : d.store.Ok
  lists : c.lists = d.lists.map fun x => listPtr x.1 x.2
  patches : c.patches = d.patches.map fun x => patchPtr x.1 x.2
  handles : d.HandlesOk

theorem follows_start (m : Mem) : Follows (Client.start m) (StoreClient.start m) :=
  ⟨lay_initArena m, ok_initial m, rfl, rfl, ⟨fun x hx => by simp [StoreClient.start] at hx,
    fun x hx => by simp [StoreClient.start] at hx⟩⟩

variable {c : Client} {d : StoreClient}

private theorem StoreClient.HandlesOk.extend (h : d.HandlesOk) {st l p}
    (hblk : ∀ {b x}, d.store.blk b = some x → st.blk b = some x)
    (hinit : ∀ {b x}, d.store.blk b = some x → d.store.init b ≤ st.init b)
    (hl : ∀ x ∈ l, ∃ n, st.blk x.1 = some (.values, n) ∧ x.2 < n)
    (hp : ∀ x ∈ p, (∃ n, st.blk x.1 = some (.patches, n)) ∧ x.2 < st.init x.1) :
    StoreClient.HandlesOk ⟨st, d.lists ++ l, d.patches ++ p⟩ := by
  constructor
  · intro x hx
    rcases mem_append.1 hx with hx | hx
    · obtain ⟨n, hb, hlt⟩ := h.lists x hx
      exact ⟨n, hblk hb, hlt⟩
    · exact hl x hx
  · intro x hx
    rcases mem_append.1 hx with hx | hx
    · obtain ⟨⟨n, hb⟩, hlt⟩ := h.patches x hx
      exact ⟨⟨n, hblk hb⟩, Nat.lt_of_lt_of_le hlt (hinit hb)⟩
    · exact hp x hx

private theorem StoreClient.HandlesOk.keep (h : d.HandlesOk) {st}
    (hblk : ∀ {b x}, d.store.blk b = some x → st.blk b = some x)
    (hinit : ∀ {b x}, d.store.blk b = some x → d.store.init b ≤ st.init b) :
    StoreClient.HandlesOk { d with store := st } := by
  have := h.extend (l := []) (p := []) hblk hinit (fun x hx => by simp at hx) (fun x hx => by simp at hx)
  simpa using this

section

variable (h : Follows c d)

include h

theorem Follows.hashmapInit (hs : ¬(c.exec .hashmapInit).arena.OutOfSpace) :
    Follows (c.exec .hashmapInit) (d.exec .hashmapInit) := by
  rcases h.lay.hashmapInit with ⟨-, hout⟩ | hlay
  · exact absurd hout hs
  · have hok : d.store.initMap.Ok := Store.Ok.initMap h.ok.blocks h.ok.elems h.ok.heads
    refine ⟨hlay, hok, h.lists, h.patches, h.handles.keep ?_ (fun _ => Nat.le_refl _)⟩
    intro b x hb
    have hb0 : Store.BlocksOk { d.store with count := 0, capacity := 16 } := h.ok.blocks.congr rfl rfl rfl
    exact (hb0.withBlock (by omega)).le_withBlock.blk (hb0.le_withBlock.blk hb)

theorem Follows.hashmapAddKey {key} (hlen : key.length < 2 ^ 31) :
    Follows (c.exec (.hashmapAddKey key)) (d.exec (.hashmapAddKey key)) := by
  obtain ⟨s', st', r, e, e', hlay⟩ := h.lay.hashmapAddKey h.ok hlen
  obtain ⟨hok, hblk, hinit, hres⟩ := h.ok.addKey key
  rw [e'] at hok hblk hinit hres
  simp only [Client.exec, e, StoreClient.exec, e']
  refine ⟨hlay, hok, ?_, h.patches, ?_⟩
  · rw [h.lists, map_append]
    cases r <;> rfl
  · have := h.handles.extend (l := (r.map fun i => (st'.valuesOff, i)).toList) (p := []) hblk
      (fun hb => Nat.le_of_eq (hinit hb).symm) ?_ (fun x hx => by simp at hx)
    · simpa using this
    · intro x hx
      cases r with
      | none => simp at hx
      | some i =>
        obtain rfl : x = (st'.valuesOff, i) := by simpa using hx
        exact ⟨_, hok.values, Nat.lt_of_lt_of_le (hres i rfl) hok.count_le⟩

theorem Follows.hashmapRemove (key : CString) :
    Follows (c.exec (.hashmapRemove key)) (d.exec (.hashmapRemove key)) := by
  have hlay := h.lay.hashmapRemove h.ok key
  cases hidx : d.store.index key with
  | none =>
    have e : d.store.remove key = d.store := by simp only [Store.remove, hidx]
    simp only [Client.exec, StoreClient.exec]
    rw [e] at hlay ⊢
    exact ⟨hlay, h.ok, h.lists, h.patches, h.handles⟩
  | some i =>
    have hs := h.ok.remove hidx
    refine ⟨hlay, hs.ok, h.lists, h.patches, h.handles.keep ?_ ?_⟩
    · intro b x hb
      rw [hs.blk]
      exact hb
    · intro b x hb
      rw [hs.init]

theorem Follows.patchlistAdd (n : Nat) {file find} (hf : file.length < 2 ^ 31)
    (hn : find.length < 2 ^ 31) : Follows (c.exec (.patchlistAdd n file find)) (d.exec (.patchlistAdd n file find)) := by
  simp only [Client.exec, StoreClient.exec, h.lists, getElem?_map]
  cases hd : d.lists[n]? with
  | none => exact h
  | some x =>
    obtain ⟨b, i⟩ := x
    obtain ⟨_, hb, hi⟩ := h.handles.lists _ (mem_of_getElem? hd)
    obtain ⟨s', st', r, e, e', hlay⟩ := h.lay.patchlistAdd h.ok hb hi hf hn
    obtain ⟨hok, hle, hres⟩ := h.ok.addPatch hb hi file find
    rw [e'] at hok hle hres
    simp only [Option.map_some, e, e']
    refine ⟨hlay, hok, rfl, ?_, ?_⟩
    · rw [h.patches, map_append]
      cases r <;> rfl
    · have := h.handles.extend (l := []) (p := r.toList) hle.blk (fun _ => hle.init _) (fun x hx => by simp at hx) ?_
      · simpa using this
      · intro x hx
        exact hres x.1 x.2 (by simpa using hx)

theorem Follows.patchAddTransform (n : Nat) {mtch replace} (hm : mtch.length < 2 ^ 31)
    (hr : replace.length < 2 ^ 31) :
    Follows (c.exec (.patchAddTransform n mtch replace)) (d.exec (.patchAddTransform n mtch replace)) := by
  simp only [Client.exec, StoreClient.exec, h.patches, getElem?_map]
  cases hd : d.patches[n]? with
  | none => exact h
  | some x =>
    obtain ⟨b, j⟩ := x
    obtain ⟨⟨_, hb⟩, hj⟩ := h.handles.patches _ (mem_of_getElem? hd)
    obtain ⟨hok, hle⟩ := h.ok.addElem (.patch hb hj) mtch replace
    exact ⟨h.lay.patchAddTransform h.ok hb hj hm hr, hok, h.lists, rfl,
      h.handles.keep hle.blk (fun _ => hle.init _)⟩

theorem Follows.exec {call} (hlen : ∀ s ∈ call.strings, s.length < 2 ^ 31)
    (hs : call ≠ .hashmapInit ∨ ¬(c.exec call).arena.OutOfSpace) : Follows (c.exec call) (d.exec call) := by
  cases call with
  | hashmapInit => exact h.hashmapInit (hs.resolve_left fun hne => hne rfl)
  | hashmapAddKey key => exact h.hashmapAddKey (hlen key (by simp [Call.strings]))
  | hashmapRemove key => exact h.hashmapRemove key
  | patchlistAdd n file find =>
    exact h.patchlistAdd n (hlen file (by simp [Call.strings])) (hlen find (by simp [Call.strings]))
  | patchAddTransform n mtch replace =>
    exact h.patchAddTransform n (hlen mtch (by simp [Call.strings])) (hlen replace (by simp [Call.strings]))

theorem Follows.run {calls} (hlen : ∀ call ∈ calls, ∀ s ∈ call.strings, s.length < 2 ^ 31)
    (hs : .hashmapInit ∉ calls ∨ ¬(c.run calls).arena.OutOfSpace) : Follows (c.run calls) (d.run calls) := by
  induction calls generalizing c d with
  | nil => exact h
  | cons call calls ih =>
    have hstep : call ≠ .hashmapInit ∨ ¬(c.exec call).arena.OutOfSpace := by
      rcases hs with hs | hs
      · exact .inl fun he => hs (by simp [he])
      · exact .inr fun hout => hs (hout.mono ((c.exec call).run_extends calls))
    refine ih (h.exec (hlen call (by simp)) hstep) (fun call' hc => hlen call' (by simp [hc])) ?_
    rcases hs with hs | hs
    · exact .inl fun hmem => hs (by simp [hmem])
    · exact .inr hs

end

/-- The layout of the arena after any program, whatever pointers it kept and whatever did not fit: `used` is within the
mapping, the blocks are aligned, lie between the header and `used` and do not overlap, and every write so far went into
the header or into the block its pointer was computed from. -/
theorem run_layout (m : Mem) {calls : List Call} (hinit : .hashmapInit ∉ calls)
    (hlen : ∀ call ∈ calls, ∀ s ∈ call.strings, s.length < maxFrameSize) :
    let s := ((Client.start m).run calls).arena
    s.used ≤ s.size ∧
      (∀ x ∈ s.blocks, x.off % 8 = 0 ∧ 24 ≤ x.off ∧ x.off + x.size ≤ s.used) ∧
      s.blocks.Pairwise (fun x y => x.off + x.size ≤ y.off ∨ y.off + y.size ≤ x.off) ∧
      ∀ k b a n, .write k b a n ∈ s.trace →
        ∃ x ∈ ⟨.header, 0, 24⟩ :: s.blocks, x.kind = k ∧ x.off = b ∧ b ≤ a ∧ a + n ≤ b + x.size := by
  intro s
  have hf : Follows ((Client.start m).run calls) ((StoreClient.start m).run calls) := by
    refine (follows_start m).run (fun call hc str hstr => ?_) (.inl hinit)
    have := hlen call hc str hstr
    unfold maxFrameSize at this
    omega
  have hlay : Lay s _ := hf.lay
  have htrc := hlay.trace
  have hsor := htrc.sorted
  unfold Arena.objects at hsor
  rw [pairwise_append] at hsor
  refine ⟨?_, ?_, ?_, ?_⟩
  · rw [hlay.used, hlay.size]
    exact hlay.used_le
  · intro x hx
    have hmem : x ∈ s.objects := mem_append_left _ hx
    exact ⟨htrc.aligned x hmem, hsor.2.2 x hx ⟨.header, 0, 24⟩ (by simp), htrc.below x hmem⟩
  · exact hsor.1.imp fun h => .inr h
  · intro k b a n hw
    obtain ⟨x, hx, hspec⟩ := htrc.writes hw
    refine ⟨x, ?_, hspec⟩
    rw [mem_cons]
    exact (mem_append.1 hx).symm.imp_left mem_singleton.1

theorem run_layout_stale_pointer :
    let calls : List Call := [.hashmapAddKey (.ofBytes [112]), .hashmapRemove (.ofBytes [112]),
      .patchlistAdd 0 (.ofBytes [102]) (.ofBytes [])]
    let s := ((Client.start fun _ => 0).run calls).arena
    .hashmapInit ∉ calls ∧ s.used ≤ s.size := by
  refine ⟨by decide, (run_layout (fun _ => 0) (by decide) (by decide)).1⟩

end CloudeLoader
