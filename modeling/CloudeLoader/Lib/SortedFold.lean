import Mathlib

/-!
# Folds over sorted lists

A sort that is not stable may leave elements with equal keys in any order.  What a fold over the sorted list computes does
not depend on that order if elements with equal keys commute (`foldl_eq_of_ordered`).
-/

namespace SortedFold

open List

variable {α β κ : Type*} [LinearOrder κ] {key : α → κ} {xs ys : List α} {f : β → α → β} {P : β → Prop} {p : α → Bool}

def Ordered (key : α → κ) (xs : List α) : Prop := xs.Pairwise fun a b => key a ≤ key b

/-- What a fold does is an action on the values that satisfy `P`. -/
def Preserves (P : β → Prop) (f : β → α → β) (xs : List α) : Prop := ∀ a ∈ xs, ∀ s, P s → P (f s a)

theorem Preserves.mono (h : Preserves P f xs) (hys : ∀ a ∈ ys, a ∈ xs) :
    Preserves P f ys := fun a ha => h a (hys a ha)

theorem foldl_cons_comm {a : α} (hP : Preserves P f (a :: xs))
    (hcomm : ∀ b ∈ xs, ∀ s, P s → f (f s b) a = f (f s a) b) {s : β} (hs : P s) :
    (xs ++ a :: ys).foldl f s = (a :: (xs ++ ys)).foldl f s := by
  induction xs generalizing s with
  | nil => rfl
  | cons b xs ih =>
    have hb : P (f s b) := hP b (by simp) s hs
    have hxs : Preserves P f (a :: xs) := hP.mono fun c hc => by
      rcases mem_cons.1 hc with rfl | hc
      · exact mem_cons_self
      · exact mem_cons_of_mem _ (mem_cons_of_mem _ hc)
    calc (xs ++ a :: ys).foldl f (f s b) = (xs ++ ys).foldl f (f (f s b) a) :=
          ih hxs (fun c hc => hcomm c (mem_cons_of_mem _ hc)) hb
      _ = (xs ++ ys).foldl f (f (f s a) b) := by rw [hcomm b (mem_cons_self) s hs]

theorem foldl_eq_of_ordered (hperm : xs.Perm ys) (hx : Ordered key xs)
    (hy : Ordered key ys) (hP : Preserves P f xs)
    (hcomm : ∀ a ∈ xs, ∀ b ∈ xs, key a = key b → ∀ s, P s → f (f s a) b = f (f s b) a) {s : β} (hs : P s) :
    xs.foldl f s = ys.foldl f s := by
  induction xs generalizing ys s with
  | nil => rw [hperm.nil_eq]
  | cons a xs ih =>
    obtain ⟨front, rest, rfl⟩ := append_of_mem (hperm.subset (mem_cons_self))
    have hperm' : xs.Perm (front ++ rest) := (hperm.trans perm_middle).cons_inv
    have hfrn : ∀ b ∈ front, b ∈ xs := fun b hb => hperm'.symm.subset (mem_append_left _ hb)
    obtain ⟨hhead, hx'⟩ := pairwise_cons.1 hx
    -- what stands before `a` in the other list has the same key
    have hkey : ∀ b ∈ front, key b = key a := by
      intro b hb
      have hle := (pairwise_append.1 hy).2.2 b hb a (mem_cons_self)
      exact le_antisymm hle (hhead b (hfrn b hb))
    have hy' : Ordered key (front ++ rest) :=
      List.Pairwise.sublist (List.Sublist.append_left (sublist_cons_self ..) _) hy
    have hmove : (front ++ a :: rest).foldl f s = (a :: (front ++ rest)).foldl f s := by
      refine foldl_cons_comm (hP.mono fun b hb => ?_) (fun b hb => ?_) hs
      · rcases mem_cons.1 hb with rfl | hb
        · exact mem_cons_self
        · exact mem_cons_of_mem _ (hfrn b hb)
      · exact hcomm b (mem_cons_of_mem _ (hfrn b hb)) a (mem_cons_self) (hkey b hb)
    rw [hmove]
    exact ih hperm' hx' hy' (hP.mono fun b hb => mem_cons_of_mem _ hb)
      (fun b hb c hc => hcomm b (mem_cons_of_mem _ hb) c (mem_cons_of_mem _ hc))
      (hP a (mem_cons_self) s hs)

instance total_key (key : α → κ) : Std.Total fun a b => key a ≤ key b := ⟨fun a b => le_total (key a) (key b)⟩

instance trans_key (key : α → κ) : IsTrans α fun a b => key a ≤ key b := ⟨fun _ _ _ => le_trans⟩

theorem exists_perm_filterMap {f : β → Option α} {bs : List β} (hf : ∀ b ∈ bs, (f b).isSome)
    (h : xs.Perm (bs.filterMap f)) : ∃ cs : List β, cs.Perm bs ∧ cs.filterMap f = xs := by
  induction xs generalizing bs with
  | nil =>
    refine ⟨[], ?_, rfl⟩
    have hnil := h.nil_eq.symm
    rw [filterMap_eq_nil_iff] at hnil
    have hbs : bs = [] := eq_nil_iff_forall_not_mem.2 fun b hb => by
      have := hf b hb
      rw [hnil b hb] at this
      simp at this
    rw [hbs]
  | cons a xs ih =>
    obtain ⟨b, hb, hfb⟩ := mem_filterMap.1 (h.subset (mem_cons_self))
    obtain ⟨front, rest, rfl⟩ := append_of_mem hb
    rw [filterMap_append, filterMap_cons_some hfb] at h
    obtain ⟨cs, hcs, rfl⟩ : ∃ cs : List β, cs.Perm (front ++ rest) ∧ cs.filterMap f = xs := by
      refine ih (fun c hc => hf c ?_) ?_
      · exact perm_middle.symm.subset (mem_cons_of_mem _ hc)
      · rw [filterMap_append]
        exact (h.trans perm_middle).cons_inv
    exact ⟨b :: cs, (hcs.cons b).trans perm_middle.symm, filterMap_cons_some hfb⟩

end SortedFold
