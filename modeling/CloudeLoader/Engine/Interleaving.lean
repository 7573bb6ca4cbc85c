import CloudeLoader.Arena.Refinement
import CloudeLoader.Engine.PatchHandler

/-!
# Handlers that take turns

Every child process has a reader thread of its own, and no lock is taken around the arena: the handlers of two `PATCHES`
messages make their calls in any order, and `destroy_plugin` of another plugin may remove a key in between.
-/

namespace CloudeLoader

open ByteMemory Arena List

structure System where
  arena : Arena
  threads : List Handler
  fault : Option NullPointer

inductive Turn
  | handler (n : Nat)
  | destroy (plugin : CString)
  deriving DecidableEq

abbrev Messages := InsertionMap CString (Option (List PatchParams))

def Messages.sent (messages : Messages) (plugin : CString) : List Patch :=
  (((messages.get plugin).getD none).getD []).map PatchParams.decode

def Messages.Short (messages : Messages) : Prop :=
  ∀ e ∈ messages.entries, e.1.length < 2 ^ 31 ∧ ∀ p ∈ messages.sent e.1, p.Short

instance Messages.decidableShort (messages : Messages) : Decidable messages.Short := by
  unfold Messages.Short
  infer_instance

namespace System

def turn (sys : System) (t : Turn) : System :=
  match sys.fault with
  | some _ => sys
  | none =>
    match t with
    | .destroy plugin => { sys with arena := hashmapRemove sys.arena plugin }
    | .handler n =>
      match sys.threads[n]? with
      | none => sys
      | some h =>
        match h.step sys.arena with
        | (s, .ok h) => { sys with arena := s, threads := sys.threads.set n h }
        | (s, .error e) => { sys with arena := s, fault := some e }

def run (sys : System) (turns : List Turn) : System := turns.foldl turn sys

def start (s : Arena) (messages : Messages) : System :=
  ⟨s, messages.entries.map fun e => Handler.start e.1 e.2, none⟩

/-- No handler that will use its list pointer again has it changed under its hands. -/
def safe (sys : System) : Turn → Bool
  | .handler n =>
    match sys.threads[n]? with
    | none => true
    | some h =>
      -- adding a new plugin moves the array of lists if it is full
      !h.adding || (hashmapGet sys.arena h.plugin).isSome || decide (sys.arena.count < sys.arena.capacity) ||
        sys.threads.all fun g => !g.inFlight
  | .destroy plugin =>
    match hashmapIndex sys.arena plugin with
    | none => true
    | some i =>
      -- the entries behind `i` move down
      sys.threads.all fun g => !g.inFlight ||
        match hashmapIndex sys.arena g.plugin with
        | none => true
        | some j => decide (j < i)

def safeRun (sys : System) : List Turn → Bool
  | [] => true
  | t :: turns => sys.safe t && (sys.turn t).safeRun turns

theorem turn_extends (sys : System) (t : Turn) : sys.arena.Extends (sys.turn t).arena := by
  simp only [turn]
  split
  · exact Extends.refl _
  · split
    · exact hashmapRemove_extends _
    · split
      · exact Extends.refl _
      · rename_i h _
        have hstep := h.step_extends sys.arena
        split
        · rename_i e
          rw [e] at hstep
          exact hstep
        · rename_i e
          rw [e] at hstep
          exact hstep

theorem run_extends (sys : System) (turns : List Turn) : sys.arena.Extends (sys.run turns).arena := by
  induction turns generalizing sys with
  | nil => exact Extends.refl _
  | cons t turns ih => exact (sys.turn_extends t).trans (ih (sys.turn t))

theorem turn_plugins (sys : System) (t : Turn) :
    (sys.turn t).threads.map Handler.plugin = sys.threads.map Handler.plugin := by
  simp only [turn]
  split
  · rfl
  · split
    · rfl
    · split
      · rfl
      · rename_i n _ h hn
        obtain ⟨hn', rfl⟩ := List.getElem?_eq_some_iff.1 hn
        split
        · rename_i e
          rw [List.map_set, Handler.step_plugin e, ← List.map_set, List.set_getElem_self]
        · rfl

theorem run_plugins (sys : System) (turns : List Turn) :
    (sys.run turns).threads.map Handler.plugin = sys.threads.map Handler.plugin := by
  induction turns generalizing sys with
  | nil => rfl
  | cons t turns ih => exact (ih (sys.turn t)).trans (sys.turn_plugins t)

/-! ### The invariant -/

/-- The arena is sound, every thread will leave the list `goal` has for its plugin, and no two threads work for the same
plugin. -/
structure Inv (sys : System) (goal : CString → List Patch) : Prop where
  fault : sys.fault = none
  distinct : (sys.threads.map Handler.plugin).Nodup
  holds : ∃ st dead m, sys.arena.Holds st dead m ∧
    ∀ g ∈ sys.threads, g.Ok st ∧ g.Short ∧ g.expected m = goal g.plugin

variable {sys : System} {goal : CString → List Patch} {s : Arena} {st : Store} {dead : List PatchListShm} {m : PatchMap}

private theorem ok_other {st' : Store} {m' : PatchMap} {h h' g : Handler} (hs : s.Holds st dead m)
    (hspec : Handler.StepSpec h h' st st' m m') (hne : g.plugin ≠ h.plugin) (hg : g.Ok st)
    (hsafe : h.adding = true → g.inFlight = true →
      (hashmapGet s h.plugin).isSome = true ∨ s.count < s.capacity) : g.Ok st' := by
  constructor
  · intro hf
    obtain ⟨i, l, he, hlist⟩ := hg.list hf
    refine ⟨i, l, hspec.entries i _ l hne he, ?_⟩
    rw [hspec.values, hlist]
    intro hadd
    rcases hsafe hadd hf with hget | hlt
    · left
      rw [hs.lay.hashmapGet_eq hs.store.ok, Option.isSome_map, Option.isSome_iff_exists] at hget
      obtain ⟨j, hj⟩ := hget
      exact hs.store.mem_keys hj
    · right
      rwa [hs.lay.count, hs.lay.capacity] at hlt
  · intro ht
    obtain ⟨i, l, he, hpat⟩ := hg.patch ht
    exact ⟨i, l, hspec.entries i _ l hne he, hpat⟩

private theorem ok_erased {st' : Store} {plugin : CString} {g : Handler} {i : Nat} {l : PatchListShm}
    (hi : st.entries[i]? = some (plugin, l)) (hent : st'.entries = st.entries.eraseIdx i)
    (hval : st'.valuesOff = st.valuesOff) (hne : g.plugin ≠ plugin) (hg : g.Ok st)
    (hsafe : ∀ j l', g.inFlight = true → st.entries[j]? = some (g.plugin, l') → j < i) : g.Ok st' := by
  constructor
  · intro hf
    obtain ⟨j, l', he, hlist⟩ := hg.list hf
    refine ⟨j, l', ?_, by rw [hval, hlist]⟩
    rw [hent, getElem?_eraseIdx_of_lt (hsafe j l' hf he)]
    exact he
  · intro ht
    obtain ⟨j, l', he, hpat⟩ := hg.patch ht
    have hji : j ≠ i := by
      rintro rfl
      cases hi.symm.trans he
      exact hne rfl
    have hmem : (g.plugin, l') ∈ st'.entries := by
      rw [hent, mem_eraseIdx_iff_getElem?]
      exact ⟨j, hji, he⟩
    obtain ⟨j', he'⟩ := getElem?_of_mem hmem
    exact ⟨j', l', he', hpat⟩

theorem Inv.handler (h : sys.Inv goal) {n : Nat} (hsafe : sys.safe (.handler n) = true)
    (hr : (sys.turn (.handler n)).arena.refusals = sys.arena.refusals) : (sys.turn (.handler n)).Inv goal := by
  have hdis' : ((sys.turn (.handler n)).threads.map Handler.plugin).Nodup := by
    rw [turn_plugins]
    exact h.distinct
  obtain ⟨s, threads, fault⟩ := sys
  obtain ⟨rfl, hdis, st, dead, m, hs, hthr⟩ := h
  simp only [turn, safe] at hsafe hr hdis' ⊢
  cases hn : threads[n]? with
  | none => exact ⟨rfl, hdis, st, dead, m, hs, hthr⟩
  | some g =>
    obtain ⟨hn', rfl⟩ := List.getElem?_eq_some_iff.1 hn
    simp only [hn] at hsafe hr hdis' ⊢
    obtain ⟨hok, hshr, hexp⟩ := hthr _ (List.getElem_mem hn')
    have hr' : (threads[n].step s).1.refusals = s.refusals := by
      rw [← hr]
      split <;> simp_all
    obtain ⟨s', g', st', m', e, hs', hspec⟩ := Handler.step_spec hs hok hshr hr'
    simp only [e] at hdis' ⊢
    refine ⟨rfl, hdis', st', dead, m', hs', fun f hf => ?_⟩
    obtain ⟨n', hn₂⟩ := List.getElem?_of_mem hf
    rw [List.getElem?_set] at hn₂
    split at hn₂
    · -- the thread whose turn it was
      rename_i hnn
      obtain rfl : g' = f := by simpa [hn'] using hn₂
      exact ⟨hspec.ok, hspec.short, by rw [hspec.expected, Handler.step_plugin e, hexp]⟩
    · rename_i hnn
      obtain ⟨hfok, hfsh, hfexp⟩ := hthr f (List.mem_of_getElem? hn₂)
      have hne : f.plugin ≠ threads[n].plugin := by
        intro heq
        refine hnn ((List.getElem?_inj (by simpa using hn') hdis).1 ?_)
        rw [List.getElem?_map, List.getElem?_map, hn, hn₂, Option.map_some, Option.map_some, heq]
      refine ⟨ok_other hs hspec hne hfok ?_, hfsh, ?_⟩
      · intro hadd hfly
        simp only [Bool.or_eq_true, Bool.not_eq_true', decide_eq_true_eq, List.all_eq_true] at hsafe
        rcases hsafe with ((hna | hget) | hlt) | hnone
        · rw [hadd] at hna
          simp at hna
        · exact .inl hget
        · exact .inr hlt
        · rw [hnone f (List.mem_of_getElem? hn₂)] at hfly
          simp at hfly
      · rw [← hfexp, Handler.expected, Handler.expected, hspec.other _ hne]

theorem Inv.destroy (h : sys.Inv goal) {plugin : CString} (hsafe : sys.safe (.destroy plugin) = true)
    (hoth : ∀ g ∈ sys.threads, g.plugin ≠ plugin) : (sys.turn (.destroy plugin)).Inv goal := by
  obtain ⟨s, threads, fault⟩ := sys
  obtain ⟨rfl, hdis, st, dead, m, hs, hthr⟩ := h
  simp only [turn, safe] at hsafe ⊢
  have hexp : ∀ g ∈ threads, g.expected (m.erase plugin) = goal g.plugin := by
    intro g hg
    rw [← (hthr g hg).2.2, Handler.expected, Handler.expected, InsertionMap.get_erase_ne (hoth g hg)]
  cases hidx : st.index plugin with
  | none =>
    refine ⟨rfl, hdis, st, dead, _, hs.hashmapRemove_absent hidx, fun g hg => ?_⟩
    exact ⟨(hthr g hg).1, (hthr g hg).2.1, hexp g hg⟩
  | some i =>
    obtain ⟨l, he⟩ := Store.index_eq_some hidx
    obtain ⟨hs', hent, hval⟩ := hs.hashmapRemove he
    refine ⟨rfl, hdis, _, _, _, hs', fun g hg => ⟨?_, (hthr g hg).2.1, hexp g hg⟩⟩
    refine ok_erased he hent hval (hoth g hg) (hthr g hg).1 fun j l' hf hj => ?_
    simp only [hs.lay.hashmapIndex_eq hs.store.ok, hidx, all_eq_true] at hsafe
    simpa [hf, hs.store.index_eq_some hj] using hsafe g hg

theorem Inv.run (h : sys.Inv goal) {turns} (hsafe : sys.safeRun turns = true)
    (hoth : ∀ plugin, Turn.destroy plugin ∈ turns → plugin ∉ sys.threads.map Handler.plugin)
    (hspc : ¬(sys.run turns).arena.OutOfSpace) : (sys.run turns).Inv goal := by
  induction turns generalizing sys with
  | nil => exact h
  | cons t turns ih =>
    simp only [safeRun, Bool.and_eq_true] at hsafe
    have hspc' : ¬(sys.turn t).arena.OutOfSpace := fun hout => hspc (hout.mono ((sys.turn t).run_extends turns))
    have hr : (sys.turn t).arena.refusals = sys.arena.refusals := by
      have hle := (sys.turn_extends t).refusals_le
      rw [(refusals_eq_zero _).2 hspc'] at hle ⊢
      omega
    have hnext : (sys.turn t).Inv goal := by
      cases t with
      | handler n => exact h.handler hsafe.1 hr
      | destroy plugin =>
        refine h.destroy hsafe.1 fun g hg heq => ?_
        exact hoth plugin (mem_cons_self) (heq ▸ mem_map_of_mem hg)
    refine ih hnext hsafe.2 (fun plugin hp => ?_) hspc
    rw [turn_plugins]
    exact hoth plugin (mem_cons_of_mem _ hp)

theorem start_plugins (s : Arena) (messages : Messages) :
    (start s messages).threads.map Handler.plugin = messages.keys := by
  simp only [start, InsertionMap.keys, map_map]
  rfl

theorem start_inv (hs : s.Holds st dead m) {messages} (hshr : messages.Short) :
    (start s messages).Inv fun plugin => s.patchesOf plugin ++ messages.sent plugin := by
  refine ⟨rfl, ?_, st, dead, m, hs, fun g hg => ?_⟩
  · rw [start_plugins]
    exact messages.nodup
  · obtain ⟨⟨plugin, params⟩, he, rfl⟩ := mem_map.1 hg
    obtain ⟨i, hi⟩ := getElem?_of_mem he
    have hsent : (Handler.start plugin params).todo = messages.sent plugin := by
      rw [Messages.sent, InsertionMap.get_of_getElem? hi]
      rfl
    obtain ⟨hplg, hpat⟩ := hshr _ he
    refine ⟨⟨fun hf => by simp [Handler.start, Handler.inFlight] at hf, fun ht => absurd rfl ht⟩,
      ⟨hplg, fun t ht => by simp [Handler.start] at ht, ?_⟩, ?_⟩
    · rw [hsent]
      exact hpat
    · show finishList ((m.get plugin).getD []) [] (Handler.start plugin params).todo = s.patchesOf plugin ++ messages.sent plugin
      rw [finishList_nil, hsent, hs.patchesOf_eq]

theorem Inv.patchesOf_eq (h : sys.Inv goal) {g} (hg : g ∈ sys.threads) (hf : g.finished = true) :
    sys.arena.patchesOf g.plugin = goal g.plugin := by
  obtain ⟨-, -, st, dead, m, hs, hthr⟩ := h
  obtain ⟨ht, htodo⟩ : g.transforms = [] ∧ g.todo = [] := by simpa [Handler.finished] using hf
  rw [← (hthr g hg).2.2, hs.patchesOf_eq, Handler.expected, ht, htodo, finishList_nil, append_nil]

end System

/-- However the handlers take turns with one another and with removals of other plugins, if no turn moves a list that is
still being filled, then no handler dereferences `NULL`, and when all have finished every plugin has its patches, in order,
behind those it had before. -/
theorem run_registers (mem : Mem) (calls : List Call) {a : AbsClient}
    (hlen : ∀ call ∈ calls, ∀ s ∈ call.strings, s.length < 2 ^ 31) (habs : AbsClient.start.run calls = some a)
    (messages : Messages) (hshort : messages.Short) (turns : List Turn)
    (hother : ∀ plugin, Turn.destroy plugin ∈ turns → plugin ∉ messages.keys) :
    let s := ((Client.start mem).run calls).arena
    let sys := (System.start s messages).run turns
    ¬sys.arena.OutOfSpace → (System.start s messages).safeRun turns = true →
      sys.fault = none ∧ ((∀ g ∈ sys.threads, g.finished = true) →
        ∀ plugin ∈ messages.keys, sys.arena.patchesOf plugin = s.patchesOf plugin ++ messages.sent plugin) := by
  intro s sys hspc hsafe
  have hspc' : ¬s.OutOfSpace := fun hout => hspc (hout.mono ((System.start s messages).run_extends turns))
  obtain ⟨hfol, dead, href⟩ := (refines_start mem).run (follows_start mem) hlen hspc' habs
  have hinv := (System.start_inv ⟨hfol.lay, href.holds⟩ hshort).run hsafe
    (by rw [System.start_plugins]; exact hother) hspc
  refine ⟨hinv.fault, fun hfin plugin hp => ?_⟩
  rw [← System.start_plugins s messages, ← System.run_plugins _ turns] at hp
  obtain ⟨g, hg, rfl⟩ := mem_map.1 hp
  exact hinv.patchesOf_eq hg (hfin g hg)

def twoMessages : Messages where
  entries := [(.ofBytes [112], some [⟨some (.ofBytes [97]), none, some [⟨none, none⟩]⟩]),
    (.ofBytes [113], some [⟨some (.ofBytes [98]), none, none⟩])]
  nodup := by decide

def onlyR : List Call := [.hashmapAddKey (.ofBytes [114])]

def removedAfter : List Turn :=
  [.handler 1, .handler 0, .handler 1, .handler 0, .handler 0, .destroy (.ofBytes [114])]

theorem run_registers_removedAfter :
    let sys := (System.start ((Client.start fun _ => 0).run onlyR).arena twoMessages).run removedAfter
    sys.arena.patchesOf (.ofBytes [112]) =
      ((Client.start fun _ => 0).run onlyR).arena.patchesOf (.ofBytes [112]) ++
        twoMessages.sent (.ofBytes [112]) := by
  have hoth : ∀ plugin, Turn.destroy plugin ∈ removedAfter → plugin ∉ twoMessages.keys := by
    intro plugin hp
    obtain rfl : plugin = (.ofBytes [114]) := by simpa [removedAfter] using hp
    decide
  exact (run_registers (fun _ => 0) onlyR (by decide) rfl twoMessages (by decide) removedAfter hoth
    (by decide +kernel) (by decide +kernel)).2 (by decide +kernel) (.ofBytes [112]) (by decide)

def removedBetween : List Turn :=
  [.handler 0, .handler 1, .destroy (.ofBytes [114]), .handler 0, .handler 1, .handler 0]

theorem run_removedBetween_misattributed :
    let sys := (System.start ((Client.start fun _ => 0).run onlyR).arena twoMessages).run removedBetween
    sys.fault = none ∧ ¬sys.arena.OutOfSpace ∧ (∀ g ∈ sys.threads, g.finished = true) ∧
      sys.arena.patchesOf (.ofBytes [112]) = [] ∧
      sys.arena.patchesOf (.ofBytes [113]) =
        [⟨.ofBytes [97], emptyString, [(emptyString, emptyString)]⟩] := by
  decide +kernel

end CloudeLoader
