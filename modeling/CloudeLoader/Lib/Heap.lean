import Mathlib.Data.List.ReduceOption
import Mathlib.Data.List.Perm.Basic
import Mathlib.Data.List.Nodup
import Mathlib.Tactic.Common

/-!
# Blocks on a heap

A program allocates blocks and gives them back.  A pointer is a number, or `none` for `NULL`.  To free or to reallocate a
block that is not allocated has no defined outcome, and the program then gives `none`.
-/

namespace Alloc

open List

/-- The allocated blocks; a name is never used again. -/
structure Heap where
  live : List Nat
  next : Nat
  nodup : live.Nodup
  fresh : ∀ b ∈ live, b < next

inductive Realloc
  | fails
  | inPlace
  | moves
  deriving DecidableEq

namespace Heap

def empty : Heap := ⟨[], 0, nodup_nil, fun _ hb => by cases hb⟩

def add (h : Heap) : Heap where
  live := h.next :: h.live
  next := h.next + 1
  nodup := nodup_cons.2 ⟨fun hb => Nat.lt_irrefl _ (h.fresh _ hb), h.nodup⟩
  fresh b hb := by
    rcases mem_cons.1 hb with rfl | hb
    · exact Nat.lt_succ_self _
    · exact Nat.lt_succ_of_lt (h.fresh b hb)

def remove (h : Heap) (b : Nat) : Heap where
  live := h.live.erase b
  next := h.next
  nodup := h.nodup.erase b
  fresh c hc := h.fresh c (mem_of_mem_erase hc)

end Heap

abbrev Prog (α : Type) := StateT Heap Option α

variable {α β : Type} {D : Prop} {Q R : α → Heap → Prop} {h : Heap} {p q : Option Nat} {ps qs : List (Option Nat)} {b : Nat}

def malloc (ok : Bool) : Prog (Option Nat) := fun h => if ok then some (some h.next, h.add) else some (none, h)

def free (p : Option Nat) : Prog Unit := fun h =>
  match p with
  | none => some ((), h)
  | some b => if b ∈ h.live then some ((), h.remove b) else none

def realloc (how : Realloc) (p : Option Nat) : Prog (Option Nat) := fun h =>
  match p with
  | none => malloc (how ≠ .fails) h
  | some b =>
    if b ∈ h.live then
      match how with
      | .fails => some (none, h)
      | .inPlace => some (some b, h)
      | .moves => some (some h.next, (h.remove b).add)
    else none

def freeAll : List (Option Nat) → Prog Unit
  | [] => pure ()
  | p :: ps => do
    free p
    freeAll ps

/-! ### Ownership -/

/-- The pointers that are not null are different live blocks. -/
def Owns (h : Heap) (ps : List (Option Nat)) : Prop := ps.reduceOption.Nodup ∧ ∀ b ∈ ps.reduceOption, b ∈ h.live

theorem owns_nil : Owns h [] := ⟨nodup_nil, fun _ hb => by cases hb⟩

theorem Owns.perm (hp : ps.Perm qs) (hown : Owns h ps) : Owns h qs := by
  have hred : ps.reduceOption.Perm qs.reduceOption := hp.filterMap id
  exact ⟨hred.nodup_iff.1 hown.1, fun b hb => hown.2 b (hred.mem_iff.2 hb)⟩

theorem owns_cons_some : Owns h (some b :: ps) ↔ b ∈ h.live ∧ b ∉ ps.reduceOption ∧ Owns h ps := by
  simp only [Owns, reduceOption_cons_of_some, nodup_cons, mem_cons, forall_eq_or_imp]
  tauto

theorem Owns.tail (hown : Owns h (p :: ps)) : Owns h ps := by
  cases p with
  | none => exact hown
  | some b => exact (owns_cons_some.1 hown).2.2

theorem Owns.add (hown : Owns h ps) : Owns h.add (some h.next :: ps) := by
  refine owns_cons_some.2 ⟨mem_cons_self, fun hb => Nat.lt_irrefl _ (h.fresh _ (hown.2 _ hb)), hown.1, fun b hb => ?_⟩
  exact mem_cons_of_mem _ (hown.2 b hb)

theorem Owns.remove (hown : Owns h (some b :: ps)) : Owns (h.remove b) ps := by
  obtain ⟨-, hb, hnod, hlive⟩ := owns_cons_some.1 hown
  refine ⟨hnod, fun c hc => ?_⟩
  have hne : c ≠ b := fun hcb => hb (hcb ▸ hc)
  exact (mem_erase_of_ne hne).2 (hlive c hc)

theorem notMem_remove : b ∉ (h.remove b).live := h.nodup.not_mem_erase

/-! ### Weakest preconditions -/

/-- The program ends as wanted, or its outcome is not defined and `D` holds. -/
def wp (D : Prop) (m : Prog α) (Q : α → Heap → Prop) (h : Heap) : Prop :=
  match m h with
  | none => D
  | some (a, h') => Q a h'

theorem wp_mono {m : Prog α} (hm : wp D m Q h) (hQ : ∀ a h', Q a h' → R a h') : wp D m R h := by
  unfold wp at hm ⊢
  split at hm
  · exact hm
  · exact hQ _ _ hm

theorem wp_pure {a : α} : wp D (pure a) Q h ↔ Q a h := Iff.rfl

theorem wp_bind {m : Prog α} {f : α → Prog β} {Q : β → Heap → Prop} :
    wp D (m >>= f) Q h ↔ wp D m (fun a => wp D (f a) Q) h := by
  have hrun : (m >>= f) h = (m h).bind fun x => f x.1 x.2 := rfl
  unfold wp
  rw [hrun]
  cases m h <;> rfl

theorem wp_malloc {ok : Bool} {Q : Option Nat → Heap → Prop} (hown : Owns h ps)
    (hQ : ∀ p h', p.isSome = ok → Owns h' (p :: ps) → Q p h') : wp D (malloc ok) Q h := by
  cases ok with
  | true => exact hQ _ _ rfl hown.add
  | false => exact hQ none h rfl hown

theorem wp_free_some {Q : Unit → Heap → Prop} (hb : b ∈ h.live) : wp D (free (some b)) Q h ↔ Q () (h.remove b) := by
  simp only [wp, free, if_pos hb]

theorem wp_free {Q : Unit → Heap → Prop} (hown : Owns h (p :: ps)) (hQ : ∀ h', Owns h' ps → Q () h') :
    wp D (free p) Q h := by
  cases p with
  | none => exact hQ h hown
  | some b => exact (wp_free_some (owns_cons_some.1 hown).1).2 (hQ _ hown.remove)

theorem wp_freeAll {Q : Unit → Heap → Prop} (hown : Owns h (qs ++ ps)) (hQ : ∀ h', Owns h' ps → Q () h') :
    wp D (freeAll qs) Q h := by
  induction qs generalizing h with
  | nil => exact hQ h hown
  | cons q qs ih => exact wp_bind.2 (wp_free hown fun h' hown' => ih hown')

theorem wp_realloc {how : Realloc} {Q : Option Nat → Heap → Prop} (hown : Owns h (p :: ps)) (hfls : how = .fails → Q none h)
    (hok : how ≠ .fails → ∀ c h', Owns h' (some c :: ps) →
      (∀ b, p = some b → how = .inPlace ∧ c = b ∧ h' = h ∨ how = .moves ∧ b ∉ h'.live) → Q (some c) h') :
    wp D (realloc how p) Q h := by
  cases p with
  | none =>
    cases how with
    | fails => exact hfls rfl
    | inPlace => exact hok (by decide) _ _ (Owns.add hown) fun b hb => by cases hb
    | moves => exact hok (by decide) _ _ (Owns.add hown) fun b hb => by cases hb
  | some b =>
    have hb := (owns_cons_some.1 hown).1
    simp only [wp, realloc, if_pos hb]
    cases how with
    | fails => exact hfls rfl
    | inPlace =>
      refine hok (by decide) b h hown fun c hc => ?_
      cases hc
      exact .inl ⟨rfl, rfl, rfl⟩
    | moves =>
      refine hok (by decide) _ _ hown.remove.add fun c hc => .inr ⟨rfl, fun hmem => ?_⟩
      cases hc
      rcases mem_cons.1 hmem with heq | hmem
      · exact Nat.lt_irrefl _ (heq ▸ h.fresh b hb)
      · exact notMem_remove hmem

end Alloc
