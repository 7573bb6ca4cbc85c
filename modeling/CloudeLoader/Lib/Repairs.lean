import Mathlib.Data.List.Basic
import Mathlib.Tactic.Common

/-!
# Repairs

Some places of a value may need a repair.  A repair does its place and breaks no other, so that after one pass over the
places (`fill`) nothing needs a repair.
-/

structure Repairs (δ ω : Type) where
  needs : δ → ω → Bool
  put : δ → ω → δ

namespace Repairs

open List

variable {δ ω : Type} {r : Repairs δ ω} {ws pre post : List ω} {w : ω} {d : δ}

/-- A repair does its place, and what needs no repair does not need one then. -/
def Steady (r : Repairs δ ω) (ws : List ω) : Prop :=
  ∀ d, ∀ w ∈ ws, r.needs d w = true → ∀ x ∈ ws, x = w ∨ r.needs d x = false → r.needs (r.put d w) x = false

def repair (r : Repairs δ ω) (d : δ) (w : ω) : δ := if r.needs d w then r.put d w else d

def fill (r : Repairs δ ω) (ws : List ω) (d : δ) : δ := ws.foldl r.repair d

def pending (r : Repairs δ ω) (ws : List ω) (d : δ) : Nat := ws.countP (r.needs d)

theorem pending_eq_zero : r.pending ws d = 0 ↔ ∀ x ∈ ws, r.needs d x = false := by
  simp [pending]

theorem Steady.pending_put (h : r.Steady ws) (hmem : w ∈ ws) (hw : r.needs d w = true) :
    r.pending ws (r.put d w) < r.pending ws d := by
  obtain ⟨pre, post, rfl⟩ := append_of_mem hmem
  have hdone := h d w hmem hw w hmem (.inl rfl)
  have hle : ∀ xs, xs ⊆ pre ++ w :: post → xs.countP (r.needs (r.put d w)) ≤ xs.countP (r.needs d) := by
    intro xs hxs
    refine countP_mono_left fun x hx hnds => ?_
    by_contra hnot
    rw [h d w hmem hw x (hxs hx) (.inr (by simpa using hnot))] at hnds
    exact absurd hnds (by simp)
  have hpre := hle pre (subset_append_left _ _)
  have hpost := hle post fun x hx => mem_append_right _ (mem_cons_of_mem _ hx)
  rw [pending, pending, countP_append, countP_append, countP_cons_of_pos hw,
    countP_cons_of_neg (by simp [hdone])]
  omega

theorem fill_of_not_needs (h : ∀ x ∈ ws, r.needs d x = false) : r.fill ws d = d := by
  induction ws with
  | nil => rfl
  | cons x xs ih =>
    have hx : r.repair d x = d := by simp [repair, h x mem_cons_self]
    rw [fill, foldl_cons, hx]
    exact ih fun y hy => h y (mem_cons_of_mem x hy)

theorem fill_append (pre post : List ω) (d : δ) : r.fill (pre ++ post) d = r.fill post (r.fill pre d) := foldl_append

theorem Steady.fill_put (h : r.Steady (pre ++ w :: post)) (hpre : ∀ x ∈ pre, r.needs d x = false)
    (hw : r.needs d w = true) : r.fill (pre ++ w :: post) (r.put d w) = r.fill (pre ++ w :: post) d := by
  have hmem : w ∈ pre ++ w :: post := mem_append_right _ mem_cons_self
  have hpre' : ∀ x ∈ pre, r.needs (r.put d w) x = false := fun x hx =>
    h d w hmem hw x (mem_append_left _ hx) (.inr (hpre x hx))
  have hdone : r.repair (r.put d w) w = r.put d w := by simp [repair, h d w hmem hw w hmem (.inl rfl)]
  have hrep : r.repair d w = r.put d w := by simp [repair, hw]
  rw [fill_append, fill_append, fill_of_not_needs hpre, fill_of_not_needs hpre', fill, foldl_cons, hdone, fill,
    foldl_cons, hrep]

theorem Steady.needs_fill (h : r.Steady ws) : ∀ x ∈ ws, r.needs (r.fill ws d) x = false := by
  induction hn : r.pending ws d using Nat.strongRecOn generalizing d with
  | ind n ih =>
    cases hfind : ws.find? (r.needs d) with
    | none =>
      have hnone : ∀ x ∈ ws, r.needs d x = false := by simpa using hfind
      rwa [fill_of_not_needs hnone]
    | some w =>
      obtain ⟨hw, pre, post, rfl, hpre⟩ := find?_eq_some_iff_append.1 hfind
      have hlt := h.pending_put (mem_append_right _ mem_cons_self) hw
      rw [← h.fill_put (by simpa using hpre) hw]
      exact ih _ (by omega) rfl

end Repairs
