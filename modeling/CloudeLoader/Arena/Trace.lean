import CloudeLoader.Arena.SharedMemory

/-!
# The trace only grows

No operation takes back what the trace says: in particular a request that did not fit stays on record, so an arena
without such a request has had none in any earlier state.
-/

namespace CloudeLoader

open ByteMemory Arena

def Event.isNoSpace : Event → Bool
  | .noSpace _ _ => true
  | _ => false

namespace Arena

def Extends (s s' : Arena) : Prop := s.trace <:+ s'.trace

/-- Some allocation was refused. -/
def OutOfSpace (s : Arena) : Prop := ∃ k n, Event.noSpace k n ∈ s.trace

def refusals (s : Arena) : Nat := s.trace.countP Event.isNoSpace

theorem outOfSpace_iff (s : Arena) : (s.trace.any Event.isNoSpace = true) ↔ s.OutOfSpace := by
  rw [List.any_eq_true]
  constructor
  · rintro ⟨e, he, hn⟩
    cases e with
    | noSpace k n => exact ⟨k, n, he⟩
    | alloc => simp [Event.isNoSpace] at hn
    | write => simp [Event.isNoSpace] at hn
  · rintro ⟨k, n, he⟩
    exact ⟨_, he, rfl⟩

theorem refusals_eq_zero (s : Arena) : s.refusals = 0 ↔ ¬s.OutOfSpace := by
  rw [← outOfSpace_iff, refusals, List.any_eq_true]
  simp

instance (s : Arena) : Decidable s.OutOfSpace := decidable_of_iff _ (outOfSpace_iff s)

variable {s s' s'' : Arena}

theorem Extends.refl (s : Arena) : s.Extends s := List.suffix_refl _

theorem Extends.trans (h : s.Extends s') (h' : s'.Extends s'') : s.Extends s'' := List.IsSuffix.trans h h'

theorem OutOfSpace.mono (h : s.OutOfSpace) (hx : s.Extends s') : s'.OutOfSpace := by
  obtain ⟨k, n, hmem⟩ := h
  exact ⟨k, n, hx.subset hmem⟩

section

variable (h : s.Extends s')

include h

theorem Extends.refusals_le : s.refusals ≤ s'.refusals := h.sublist.countP_le

theorem Extends.log {e} : s.Extends (s'.log e) := h.trans (List.suffix_cons ..)

theorem Extends.store {p v} : s.Extends (s'.store p v) := h.trans (List.suffix_cons ..)

theorem Extends.memset {p n} : s.Extends (s'.memset p n) :=
  h.trans (List.suffix_cons ..)

theorem Extends.memcpy {p a n} : s.Extends (s'.memcpy p a n) :=
  h.trans (List.suffix_cons ..)

theorem Extends.memcpyFrom {p bs} : s.Extends (s'.memcpyFrom p bs) :=
  h.trans (List.suffix_cons ..)

theorem Extends.ite {p : Prop} [Decidable p] (h' : s.Extends s'') :
    s.Extends (if p then s' else s'') := by
  split
  · exact h
  · exact h'

end

theorem Extends.grown {p : Prop} [Decidable p] {r ok} (hr : s.Extends r.1)
    (h : (if p then r else (s, true)) = (s', ok)) : s.Extends s' := by
  split at h
  · rw [h] at hr
    exact hr
  · injection h with h1
    exact h1 ▸ Extends.refl s

theorem Extends.salloc (h : s.Extends s') {k n} : s.Extends (CloudeLoader.salloc s' k n).1 := by
  simp only [CloudeLoader.salloc]
  split
  · exact h.log
  · exact h.store.log

theorem Extends.shmStrdup (h : s.Extends s') {str} : s.Extends (CloudeLoader.shmStrdup s' str).1 := by
  simp only [CloudeLoader.shmStrdup]
  split
  · exact h.salloc
  · exact h.salloc.memcpyFrom

end Arena

variable {s : Arena}

theorem hashmapInit_extends : s.Extends (hashmapInit s) := by
  exact (Extends.refl s).store.store.salloc.store.memset.salloc.store.memset

theorem hashmapGrow_extends : s.Extends (hashmapGrow s).1 := by
  simp only [hashmapGrow]
  split
  · exact (Extends.refl s).salloc.salloc
  · exact (Extends.refl s).salloc.salloc.memcpy.memcpy.memset.memset.store.store.store

theorem hashmapAddKey_extends (key : CString) : s.Extends (hashmapAddKey s key).1 := by
  unfold hashmapAddKey
  split
  · exact Extends.refl s
  · split
    · rename_i h
      exact hashmapGrow_extends.grown h
    · rename_i h
      exact (hashmapGrow_extends.grown h).shmStrdup.store.store.store.store.store

theorem hashmapRemove_extends (key : CString) : s.Extends (hashmapRemove s key) := by
  simp only [hashmapRemove]
  split
  · exact Extends.refl s
  · split
    · exact (Extends.refl s).memcpy.memcpy.store
    · exact (Extends.refl s).store

theorem arrayRoom_extends (k : Kind) (p : Ptr) : s.Extends (arrayRoom s k p).1 := by
  simp only [arrayRoom, growArray]
  generalize (if s.load (p.addr + 8) ≠ 0 then u32 (s.load (p.addr + 8) * 2) else 4) = n
  have h1 := (Extends.refl s).salloc (k := k) (n := n * k.stride)
  split
  · split
    · exact h1
    · exact (Extends.ite h1.memcpy h1).store.store
  · exact Extends.refl s

theorem patchAddTransform_extends (p : Ptr) (mtch replace : CString) :
    s.Extends (patchAddTransform s p mtch replace) := by
  have hroom := arrayRoom_extends (s := s) .transforms (p.member 8)
  unfold patchAddTransform
  split
  · rename_i h
    rwa [h] at hroom
  · rename_i h
    rw [h] at hroom
    exact hroom.store.shmStrdup.store.shmStrdup.store

theorem patchlistAdd_extends (p : Ptr) (file find : CString) : s.Extends (patchlistAdd s p file find).1 := by
  have hroom := arrayRoom_extends (s := s) .patches p
  unfold patchlistAdd
  split
  · rename_i h
    rwa [h] at hroom
  · rename_i h
    rw [h] at hroom
    exact hroom.store.shmStrdup.store.shmStrdup.store.store.store.store

end CloudeLoader
