import Mathlib.Data.List.Basic
import Mathlib.Tactic.Common

/-!
# Streams of frames that end in a delimiter

The frames of a stream are its pieces between delimiters without the empty ones and without the piece behind the last
delimiter.
-/

namespace Delimited

open List

variable {α : Type*} [BEq α] [LawfulBEq α] {d x : α} {a b p l : List α}

/-- The complete, nonempty pieces before the last delimiter. -/
def frames (d : α) (l : List α) : List (List α) := (l.splitOn d).dropLast.filter (!·.isEmpty)

/-- What follows the last delimiter. -/
def remainder (d : α) (l : List α) : List α := (l.splitOn d).getLastD []

def frame (p : List α) : List (List α) := if p.isEmpty then [] else [p]

theorem pieces_induction {P : List α → Prop} (d : α) (hlast : ∀ {l}, d ∉ l → P l)
    (hpc : ∀ {p l}, d ∉ p → P l → P (p ++ d :: l)) (l : List α) : P l := by
  induction hn : l.length using Nat.strongRecOn generalizing l with
  | ind n ih =>
    by_cases hmem : d ∈ l
    · obtain ⟨p, rest, rfl, hp⟩ := eq_append_cons_of_mem hmem
      refine hpc hp (ih rest.length ?_ rest rfl)
      rw [length_append, length_cons] at hn
      omega
    · exact hlast hmem

theorem eq_piece_of_findIdx? {pos : Nat} (h : l.findIdx? (· == d) = some pos) :
    l = l.take pos ++ d :: l.drop (pos + 1) ∧ d ∉ l.take pos := by
  obtain ⟨hlt, hd, hbef⟩ := findIdx?_eq_some_iff_getElem.1 h
  constructor
  · conv_lhs => rw [← take_append_drop pos l, drop_eq_getElem_cons hlt, eq_of_beq hd]
  · intro hmem
    obtain ⟨j, hj, heq⟩ := mem_take_iff_getElem.1 hmem
    exact hbef j (by omega) (beq_iff_eq.2 heq)

theorem frames_of_notMem (h : d ∉ l) : frames d l = [] := by
  rw [frames, splitOn_eq_singleton h]
  rfl

theorem remainder_of_notMem (h : d ∉ l) : remainder d l = l := by
  rw [remainder, splitOn_eq_singleton h]
  rfl

theorem frames_piece (h : d ∉ p) : frames d (p ++ d :: l) = frame p ++ frames d l := by
  rw [frames, splitOn_append_cons_self_of_not_mem h l,
    dropLast_cons_of_ne_nil (splitOn_ne_nil d l), filter_cons, frame]
  cases p.isEmpty <;> rfl

theorem remainder_piece (h : d ∉ p) : remainder d (p ++ d :: l) = remainder d l := by
  rw [remainder, remainder, splitOn_append_cons_self_of_not_mem h l]
  obtain ⟨q, qs, hq⟩ := exists_cons_of_ne_nil (splitOn_ne_nil d l)
  rw [hq]
  rfl

theorem notMem_remainder (d : α) (l : List α) : d ∉ remainder d l := by
  induction l using pieces_induction d with
  | hlast h => rwa [remainder_of_notMem h]
  | hpc h ih => rwa [remainder_piece h]

theorem frames_append (d : α) (a b : List α) : frames d (a ++ b) = frames d a ++ frames d (remainder d a ++ b) := by
  induction a using pieces_induction d with
  | hlast h => rw [frames_of_notMem h, remainder_of_notMem h, nil_append]
  | hpc h ih =>
    rw [append_assoc, cons_append, frames_piece h, frames_piece h, remainder_piece h, ih, append_assoc]

theorem remainder_append (d : α) (a b : List α) : remainder d (a ++ b) = remainder d (remainder d a ++ b) := by
  induction a using pieces_induction d with
  | hlast h => rw [remainder_of_notMem h]
  | hpc h ih => rw [append_assoc, cons_append, remainder_piece h, remainder_piece h, ih]

theorem remainder_eq_nil_iff : remainder d l = [] ↔ l = [] ∨ l.getLast? = some d := by
  induction l using pieces_induction d with
  | hlast h =>
    rw [remainder_of_notMem h, iff_self_or]
    exact fun hlast => absurd (mem_of_getLast? hlast) h
  | hpc h ih =>
    rename_i p l
    rw [remainder_piece h, ih]
    cases l with
    | nil => simp
    | cons y l => rw [getLast?_append_cons]; simp

theorem frames_concat : frames d (l ++ [x]) = frames d l ++ (if x == d then frame (remainder d l) else []) := by
  rw [frames_append]
  by_cases hx : x = d
  · have hsin := frames_piece (l := []) (notMem_remainder d l)
    rw [frames_of_notMem (not_mem_nil), append_nil] at hsin
    rw [hx, hsin, if_pos (beq_self_eq_true d)]
  · have hno : d ∉ remainder d l ++ [x] := by
      rw [mem_append, mem_singleton, not_or]
      exact ⟨notMem_remainder d l, Ne.symm hx⟩
    rw [frames_of_notMem hno, if_neg (by simpa using hx)]

theorem frames_concat_eq_left_iff : frames d (l ++ [x]) = frames d l ↔ (x = d → l = [] ∨ l.getLast? = some d) := by
  rw [frames_concat, ← remainder_eq_nil_iff]
  by_cases hx : x = d
  · simp [hx, frame]
  · simp [hx]

theorem frames_append_append_eq_left_iff :
    frames d (a ++ p ++ b) = frames d a ↔ frames d (a ++ p) = frames d a ∧ frames d (a ++ p ++ b) = frames d (a ++ p) := by
  constructor
  · intro heq
    rw [frames_append d (a ++ p) b, frames_append d a p, append_assoc, append_right_eq_self,
      append_eq_nil_iff] at heq
    rw [frames_append d (a ++ p) b, frames_append d a p, heq.1, heq.2, append_nil, append_nil]
    exact ⟨rfl, rfl⟩
  · rintro ⟨hp, hb⟩
    exact hb.trans hp

theorem frames_append_eq_left_iff :
    frames d (a ++ b) = frames d a ↔
      ∀ i, a.length ≤ i → (a ++ b)[i]? = some d → i = 0 ∨ (a ++ b)[i - 1]? = some d := by
  induction b generalizing a with
  | nil =>
    simp only [append_nil, true_iff]
    intro i hi hd
    rw [getElem?_eq_none hi] at hd
    cases hd
  | cons x b ih =>
    have hsnoc : a ++ x :: b = a ++ [x] ++ b := by simp
    have hx : (a ++ [x] ++ b)[a.length]? = some x := by simp
    have hlast : a ≠ [] → (a ++ [x] ++ b)[a.length - 1]? = a.getLast? := by
      intro hne
      have hpos := length_pos_of_ne_nil hne
      rw [append_assoc, getElem?_append_left (by omega), getLast?_eq_getElem?]
    rw [hsnoc, frames_append_append_eq_left_iff, ih, frames_concat_eq_left_iff, length_append]
    constructor
    · rintro ⟨hfir, hrest⟩ i hi hd
      rcases Nat.eq_or_lt_of_le hi with rfl | hlt
      · rw [hx] at hd
        rcases hfir (Option.some.inj hd) with rfl | hend
        · exact .inl rfl
        · have hne : a ≠ [] := by
            rintro rfl
            cases hend
          exact .inr ((hlast hne).trans hend)
      · exact hrest i hlt hd
    · intro hall
      refine ⟨?_, fun i hi hd => hall i (by omega) hd⟩
      rintro rfl
      rcases hall a.length (Nat.le_refl _) hx with hzero | hend
      · exact .inl (length_eq_zero_iff.1 hzero)
      · by_cases hne : a = []
        · exact .inl hne
        · exact .inr ((hlast hne).symm.trans hend)

end Delimited
