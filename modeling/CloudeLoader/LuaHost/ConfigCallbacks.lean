import CloudeLoader.Engine.Encoding
import CloudeLoader.Lib.Transition

/-!
# Callbacks for changed values (`config.cc`)

`dispatch_config_change` walks through `g_config_callbacks` while the callbacks it calls change that map.
-/

namespace CloudeLoader.LuaHost

open Engine Transition List

/-- An entry of `g_config_callbacks`; an empty key is a wildcard. -/
structure ConfigCallback where
  id : Nat
  key : Bytes

/-- A walk through the map: the entries that are still to come, those that it has come to, and those that were unsubscribed
before their turn. -/
structure ConfigDispatch where
  ahead : List ConfigCallback
  visited : List ConfigCallback
  dropped : List ConfigCallback
  current : Option Nat
  nextId : Nat
  isUndefined : Bool

/-- What a callback may do, and that the walk goes on.  A new entry may get a place among those that are still to come, if the
map is not rehashed. -/
inductive DispatchEvent
  | onChange (key : Bytes) (place : Option Nat) (rehash : Bool)
  | unsubscribe (id : Nat)
  | next

def ConfigCallback.isFor (key : Bytes) (cb : ConfigCallback) : Bool := cb.key.isEmpty || cb.key = key

namespace ConfigDispatch

def start (callbacks : List ConfigCallback) (nextId : Nat) : ConfigDispatch := ⟨callbacks, [], [], none, nextId, false⟩

def step (key : Bytes) (s : ConfigDispatch) : DispatchEvent → Option ConfigDispatch
  | .onChange cbKey place rehash =>
    some { s with
      ahead := place.elim s.ahead fun i => s.ahead.take i ++ ⟨s.nextId, cbKey⟩ :: s.ahead.drop i
      nextId := s.nextId + 1
      -- `g_next_cb_id` is an `int`
      isUndefined := s.isUndefined || rehash || 2 ^ 31 ≤ s.nextId + 1 }
  | .unsubscribe id =>
    some { s with
      ahead := s.ahead.filter fun cb => !cb.id = id
      dropped := s.dropped ++ s.ahead.filter (·.id = id)
      isUndefined := s.isUndefined || s.current = some id }
  | .next =>
    match s.ahead with
    | [] => none
    | cb :: ahead =>
      some { s with ahead := ahead, visited := s.visited ++ [cb], current := if cb.isFor key then some cb.id else none }

/-- The callbacks that were called, one after the other. -/
def called (key : Bytes) (s : ConfigDispatch) : List ConfigCallback := s.visited.filter (·.isFor key)

/-- No callback unsubscribes itself, the map is not rehashed, and the counter of the callbacks does not overflow. -/
def defined (s : ConfigDispatch) : DispatchEvent → Bool
  | .onChange _ _ rehash => rehash = false ∧ s.nextId + 1 < 2 ^ 31
  | .unsubscribe id => s.current ≠ some id
  | .next => true

def entries (s : ConfigDispatch) : List ConfigCallback := s.ahead ++ (s.visited ++ s.dropped)

/-- The entries are those that were there at first and new ones, with numbers of their own. -/
structure Inv (callbacks : List ConfigCallback) (s : ConfigDispatch) : Prop where
  isDefined : s.isUndefined = false
  nodup : (s.entries.map (·.id)).Nodup
  fresh : ∀ cb ∈ s.entries, cb.id < s.nextId
  kept : callbacks ⊆ s.entries

variable {key : Bytes} {callbacks : List ConfigCallback} {s s' : ConfigDispatch} {e : DispatchEvent}

theorem Inv.perm (h : Inv callbacks s) (hp : s'.entries.Perm s.entries) (hdef : s'.isUndefined = false)
    (hle : s.nextId ≤ s'.nextId) : Inv callbacks s' where
  isDefined := hdef
  nodup := (hp.map _).nodup_iff.2 h.nodup
  fresh cb hcb := (h.fresh cb (hp.mem_iff.1 hcb)).trans_le hle
  kept := List.Subset.trans h.kept hp.symm.subset

theorem Inv.step (h : Inv callbacks s) (hok : s.defined e = true) (hs : s.step key e = some s') : Inv callbacks s' := by
  cases e with
  | onChange cbKey place rehash =>
    cases hs
    obtain ⟨rfl, hlt⟩ := of_decide_eq_true hok
    have hdef : (s.isUndefined || false || decide (2 ^ 31 ≤ s.nextId + 1)) = false := by
      rw [h.isDefined, decide_eq_false (Nat.not_le.2 hlt)]
      rfl
    cases place with
    | none => exact h.perm (.refl _) hdef (Nat.le_succ _)
    | some i =>
      have hp : (s.ahead.take i ++ ⟨s.nextId, cbKey⟩ :: s.ahead.drop i ++ (s.visited ++ s.dropped)).Perm
          (⟨s.nextId, cbKey⟩ :: s.entries) := by
        rw [entries, append_assoc]
        conv_rhs => rw [← take_append_drop i s.ahead, append_assoc]
        exact perm_middle
      refine ⟨hdef, (hp.map _).nodup_iff.2 (h.nodup.cons fun hmem => ?_), fun cb hcb => ?_, fun cb hcb => ?_⟩
      · obtain ⟨cb, hcb, heq⟩ := mem_map.1 hmem
        exact absurd heq (h.fresh cb hcb).ne
      · rcases mem_cons.1 (hp.mem_iff.1 hcb) with rfl | hcb
        · exact Nat.lt_succ_self _
        · exact (h.fresh cb hcb).trans (Nat.lt_succ_self _)
      · exact hp.mem_iff.2 (mem_cons_of_mem _ (h.kept hcb))
  | unsubscribe id =>
    cases hs
    refine h.perm ?_ (by simp [h.isDefined, of_decide_eq_true hok]) (Nat.le_refl _)
    have hp := filter_append_perm (fun cb : ConfigCallback => decide (cb.id = id)) s.ahead
    simp only [entries]
    rw [← append_assoc s.visited, ← append_assoc]
    refine perm_append_comm.trans ?_
    rw [← append_assoc]
    exact hp.append_right _
  | next =>
    simp only [ConfigDispatch.step] at hs
    split at hs <;> cases hs
    next cb ahead hahd =>
    refine h.perm ?_ h.isDefined (Nat.le_refl _)
    simp only [entries, hahd, append_assoc, cons_append]
    rw [← append_assoc, ← append_assoc]
    exact perm_middle

/-- In a walk of defined steps through the map every callback for the key that was there at first is called unless it was
unsubscribed before its turn, none twice, and none that was unsubscribed. -/
theorem dispatch_calls (hids : (callbacks.map (·.id)).Nodup) {nextId : Nat} (hnext : ∀ cb ∈ callbacks, cb.id < nextId)
    {es : List DispatchEvent} (h : run (step key) (start callbacks nextId) es = some s)
    (hdefined : along (step key) defined (start callbacks nextId) es = true) :
    s.isUndefined = false ∧ ((s.called key ++ s.dropped).map (·.id)).Nodup ∧
      (s.ahead = [] → ∀ cb ∈ callbacks, cb.isFor key = true → cb ∈ s.dropped ∨ cb ∈ s.called key) := by
  have hstr : (start callbacks nextId).entries = callbacks := append_nil _
  have hinv : Inv callbacks s := ReachesBy.preserves ⟨es, h, hdefined⟩
    ⟨rfl, by rwa [hstr], by rwa [hstr], by rw [hstr]; exact Subset.refl _⟩ fun hs hok he => hs.step hok he
  refine ⟨hinv.isDefined, hinv.nodup.sublist (Sublist.map _ ?_), fun hend cb hcb hfor => ?_⟩
  · exact (filter_sublist.append_right _).trans (sublist_append_right _ _)
  · have hmem := hinv.kept hcb
    rw [entries, hend, nil_append, mem_append] at hmem
    exact hmem.symm.imp_right fun hvis => mem_filter.2 ⟨hvis, hfor⟩

theorem dispatch_calls_first :
    let callbacks : List ConfigCallback := [⟨1, utf8 "k"⟩, ⟨2, []⟩]
    let es : List DispatchEvent := [.next, .unsubscribe 2, .onChange [] (some 0) false, .next]
    let s : ConfigDispatch := ⟨[], [⟨1, utf8 "k"⟩, ⟨3, []⟩], [⟨2, []⟩], some 3, 4, false⟩
    run (step (utf8 "k")) (start callbacks 3) es = some s ∧ s.isUndefined = false ∧
      ((s.called (utf8 "k") ++ s.dropped).map (·.id)).Nodup ∧
      (s.ahead = [] → ∀ cb ∈ callbacks, cb.isFor (utf8 "k") = true → cb ∈ s.dropped ∨ cb ∈ s.called (utf8 "k")) := by
  intro callbacks es s
  have h : run (step (utf8 "k")) (start callbacks 3) es = some s := rfl
  exact ⟨h, dispatch_calls (by decide) (by decide) h (by decide)⟩

theorem unsubscribed_itself : ∃ s, run (step (utf8 "k")) (start [⟨1, utf8 "k"⟩, ⟨2, []⟩] 3) [.next, .unsubscribe 1] = some s ∧
    s.isUndefined = true :=
  ⟨_, rfl, rfl⟩

end ConfigDispatch

end CloudeLoader.LuaHost
