import CloudeLoader.Engine.Encoding
import Mathlib.Algebra.Group.Nat.Defs
import Mathlib.Data.List.DropRight

/-!
# Ring buffers (`ffi_recorder.cc`, `console_capture.cc`, `exception_capture.cc`)

A ring grows up to its size, and then the oldest entry is overwritten.  `get_recent` walks back from the newest entry; its
indices are computed with `w`-bit integers.
-/

namespace CloudeLoader.Mep

open Engine List Option Nat

structure Ring (α : Type) where
  ring : List α
  writePos : Nat

namespace Ring

variable {α : Type}

def record (w size : Nat) (r : Ring α) (entry : α) : Ring α where
  ring := if r.ring.length < size then r.ring ++ [entry] else r.ring.set (r.writePos % size) entry
  writePos := (r.writePos + 1) % 2 ^ w

/-- The index of round `i` of the loop of `get_recent`. -/
def index (w size : Nat) (r : Ring α) (i : Nat) : Nat :=
  let start := if r.writePos > 0 then r.writePos - 1 else 0
  if r.ring.length < size then (r.ring.length - 1 + 2 ^ w - i) % 2 ^ w
  else ((start + 2 ^ w - i) % 2 ^ w + size) % 2 ^ w % size

/-- The loop of `get_recent` from round `i` on; `none` for an index out of range. -/
def walk (fetch : Nat → Option α) (keeps : α → Bool) (max : Nat) : Nat → Nat → List α → Option (List α)
  | 0, _, out => some out
  | rounds + 1, i, out =>
    if out.length < max then
      (fetch i).bind fun e => walk fetch keeps max rounds (i + 1) (if keeps e then out ++ [e] else out)
    else some out

def getRecent (w size : Nat) (keeps : α → Bool) (r : Ring α) (max : Nat) : Option (List α) :=
  (walk (fun i => r.ring[r.index w size i]?) keeps max r.ring.length 0 []).map List.reverse

/-- The ring after the entries were recorded. -/
def ofEntries (w size : Nat) (entries : List α) : Ring α := entries.foldl (record w size) ⟨[], 0⟩

/-- Every one of the last entries is in its slot. -/
structure Holds (size : Nat) (r : Ring α) (entries : List α) : Prop where
  writePos : r.writePos = entries.length
  length : r.ring.length = min entries.length size
  slot : ∀ k < entries.length, entries.length ≤ k + size → r.ring[k % size]? = entries[k]?

variable {w size : Nat} {r : Ring α} {entries : List α}

theorem Holds.record (h : Holds size r entries) (hsize : 0 < size) (hlt : entries.length + 1 < 2 ^ w) (entry : α) :
    Holds size (r.record w size entry) (entries ++ [entry]) := by
  obtain ⟨hpos, hlen, hslot⟩ := h
  refine ⟨?_, ?_, ?_⟩
  · rw [Ring.record, hpos, length_append]
    exact mod_eq_of_lt hlt
  · simp only [Ring.record]
    split
    · simp
      omega
    · simp
      omega
  · intro k hk hrec
    rw [length_append, length_singleton] at hk hrec
    simp only [Ring.record, hpos]
    by_cases hfull : r.ring.length < size
    · have hmod : k % size = k := mod_eq_of_lt (by omega)
      rw [if_pos hfull, hmod]
      by_cases hlast : k < entries.length
      · have hold := hslot k hlast (by omega)
        rw [hmod] at hold
        rw [getElem?_append_left (by omega), getElem?_append_left hlast, hold]
      · obtain rfl : k = entries.length := by omega
        rw [getElem?_append_right (by omega), getElem?_append_right (by omega)]
        congr 1
        omega
    · rw [if_neg hfull]
      by_cases hlast : k < entries.length
      · have hne : entries.length % size ≠ k % size := by
          intro heq
          have hdvd := dvd_of_mod_eq_zero (sub_mod_eq_zero_of_mod_eq heq)
          exact absurd (le_of_dvd (by omega) hdvd) (by omega)
        rw [getElem?_set_ne hne, getElem?_append_left hlast, hslot k hlast (by omega)]
      · obtain rfl : k = entries.length := by omega
        have hin := mod_lt entries.length hsize
        rw [getElem?_set_self (by omega)]
        simp

theorem holds_ofEntries (hsize : 0 < size) (hlt : entries.length < 2 ^ w) :
    Holds size (ofEntries w size entries) entries := by
  induction entries using List.reverseRecOn with
  | nil => exact ⟨rfl, by simp [ofEntries], by simp⟩
  | append_singleton entries entry ih =>
    rw [length_append] at hlt
    rw [ofEntries, foldl_append]
    exact (ih (by omega)).record hsize hlt entry

theorem Holds.fetch (h : Holds size r entries) (hdvd : size ∣ 2 ^ w) (hlt : entries.length < 2 ^ w) {i : Nat}
    (hi : i < (entries.rtake size).length) : r.ring[r.index w size i]? = (entries.rtake size).reverse[i]? := by
  obtain ⟨hpos, hlen, hslot⟩ := h
  rw [List.rtake, length_drop] at hi
  rw [getElem?_reverse (by rw [List.rtake, length_drop]; omega), List.rtake, getElem?_drop, length_drop]
  have hk : entries.length - size + (entries.length - (entries.length - size) - 1 - i) = entries.length - 1 - i := by omega
  rw [hk, ← hslot (entries.length - 1 - i) (by omega) (by omega)]
  rw [index]
  split
  · have hmod : (r.ring.length - 1 + 2 ^ w - i) = entries.length - 1 - i + 2 ^ w := by omega
    rw [hmod, add_mod_right, mod_eq_of_lt (by omega), mod_eq_of_lt (by omega)]
  · have hmod : ((if r.writePos > 0 then r.writePos - 1 else 0) + 2 ^ w - i) = entries.length - 1 - i + 2 ^ w := by
      split <;> omega
    rw [hmod, add_mod_right, mod_mod_of_dvd _ hdvd, add_mod_right, mod_mod_of_dvd _ hdvd]

theorem walk_eq {fetch : Nat → Option α} {keeps : α → Bool} {max : Nat} {l : List α} {i : Nat} {out : List α}
    (h : ∀ k < l.length, fetch (i + k) = l[k]?) :
    walk fetch keeps max l.length i out = some (out ++ (l.filter keeps).take (max - out.length)) := by
  induction l generalizing i out with
  | nil => simp [walk]
  | cons e l ih =>
    have hfir : fetch i = some e := h 0 (by simp)
    have hrest : ∀ k < l.length, fetch (i + 1 + k) = l[k]? := by
      intro k hk
      have hnext := h (k + 1) (by simpa using hk)
      rw [getElem?_cons_succ] at hnext
      rw [← hnext, add_assoc, add_comm 1 k]
    rw [length_cons, walk]
    split
    · next hmax =>
      rw [hfir, bind_some, ih hrest]
      cases hkeep : keeps e with
      | false => simp [hkeep]
      | true =>
        obtain ⟨m, hm⟩ : ∃ m, max - out.length = m + 1 := ⟨max - out.length - 1, by omega⟩
        simp [hkeep, hm, show max - (out.length + 1) = m by omega]
    · next hmax => simp [show max - out.length = 0 by omega]

end Ring

/-! ### The three rings -/

inductive Capture
  | ffiRecorder
  | consoleCapture
  | exceptionCapture

namespace Capture

def ringSize : Capture → Nat
  | ffiRecorder => 512
  | consoleCapture => 512
  | exceptionCapture => 256

/-- The test of `get_recent`, for the plugin of an entry. -/
def keeps (plugin : Bytes) : Capture → Bytes → Bool
  | exceptionCapture, owner => plugin.isEmpty || owner == plugin
  | _, owner => owner == plugin

def getRecent {α : Type} (w : Nat) (pluginOf : α → Bytes) (c : Capture) (r : Ring α) (plugin : Bytes) (max : Nat) :
    Option (List α) :=
  r.getRecent w c.ringSize (fun e => c.keeps plugin (pluginOf e)) max

end Capture

/-- `get_recent` returns the last entries of the plugin among the last entries that were recorded. -/
theorem getRecent_ofEntries {α : Type} (w : Nat) (hw : 32 ≤ w) (pluginOf : α → Bytes) (c : Capture) (entries : List α)
    (hlt : entries.length < 2 ^ 32) (plugin : Bytes) (max : Nat) :
    c.getRecent w pluginOf (.ofEntries w c.ringSize entries) plugin max =
      some (((entries.rtake c.ringSize).filter fun e => c.keeps plugin (pluginOf e)).rtake max) := by
  have hlt : entries.length < 2 ^ w := lt_of_lt_of_le hlt (Nat.pow_le_pow_right (show 0 < 2 by decide) hw)
  have hsize : 0 < c.ringSize ∧ c.ringSize ∣ 2 ^ w := by
    cases c with
    | ffiRecorder => exact ⟨by decide, Nat.pow_dvd_pow 2 (show 9 ≤ w by omega)⟩
    | consoleCapture => exact ⟨by decide, Nat.pow_dvd_pow 2 (show 9 ≤ w by omega)⟩
    | exceptionCapture => exact ⟨by decide, Nat.pow_dvd_pow 2 (show 8 ≤ w by omega)⟩
  have hhol := Ring.holds_ofEntries hsize.1 hlt
  have hlen : (Ring.ofEntries w c.ringSize entries).ring.length = (entries.rtake c.ringSize).reverse.length := by
    rw [hhol.length, length_reverse, List.rtake, length_drop]
    omega
  have hfet : ∀ k < (entries.rtake c.ringSize).reverse.length,
      (fun i => (Ring.ofEntries w c.ringSize entries).ring[(Ring.ofEntries w c.ringSize entries).index w c.ringSize i]?)
        (0 + k) = (entries.rtake c.ringSize).reverse[k]? := by
    intro k hk
    rw [length_reverse] at hk
    rw [zero_add]
    exact hhol.fetch hsize.2 hlt hk
  rw [Capture.getRecent, Ring.getRecent, hlen, Ring.walk_eq hfet]
  simp [filter_reverse, take_reverse, List.rtake]

theorem getRecent_ofEntries_two :
    Capture.ffiRecorder.getRecent 64 id (.ofEntries 64 512 [utf8 "p", utf8 "q", utf8 "p"]) (utf8 "p") 1 = some [utf8 "p"] :=
  (getRecent_ofEntries 64 (by decide) id .ffiRecorder [utf8 "p", utf8 "q", utf8 "p"] (by decide) (utf8 "p") 1).trans
    (by decide +kernel)

end CloudeLoader.Mep
