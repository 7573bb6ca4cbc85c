import CloudeLoader.Lib.ByteMemory
import CloudeLoader.Lib.Occurrence
import CloudeLoader.LuaHost.Evaluate

/-!
# Splitting and joining strings (`utils.cc`)

The loop of `Lua_Split` looks for the delimiter in what is left of the string, and cuts off the piece before it together
with the delimiter.  An empty delimiter is found at the beginning of every string, and nothing is cut off.
-/

namespace CloudeLoader.LuaHost

open ByteMemory Engine List Occurrence

/-- The table that is filled, and what is left of the string. -/
structure Splitting where
  table : List LuaValue
  s : Bytes

def pushString (bytes : Bytes) : LuaValue := .string (cString bytes)

def Splitting.next (delimiter : Bytes) (l : Splitting) : Option Splitting :=
  (first delimiter l.s).map fun pos => ⟨l.table ++ [pushString (l.s.take pos)], l.s.drop (pos + delimiter.length)⟩

def splitLoop (delimiter : Bytes) : Nat → Splitting → Option (List LuaValue)
  | 0, _ => none
  | fuel + 1, l =>
    match l.next delimiter with
    | some l' => splitLoop delimiter fuel l'
    | none => some (l.table ++ [pushString l.s])

def luaSplit (fuel : Nat) (str delim : Bytes) : Option (List LuaValue) := splitLoop (cString delim) fuel ⟨[], cString str⟩

/-- The loop of `Lua_Join`; `later` says that the index is not 1.  A value that is no string and no number is left out. -/
def joinLoop (L : LuaState) (delim : Bytes) : Bool → List LuaValue → Bytes
  | _, [] => []
  | later, v :: table =>
    match L.text? v with
    | some val => (if later then delim else []) ++ val ++ joinLoop L delim true table
    | none => joinLoop L delim true table

def luaJoin (L : LuaState) (table : List LuaValue) (delim : Bytes) : Bytes := joinLoop L (cString delim) false table

/-! ### One piece -/

section Pieces

variable {d l : Bytes} {pos : Nat}

theorem exists_prefix_drop (h : d <:+: l) : ∃ k, d <+: l.drop k := by
  obtain ⟨a, b, rfl⟩ := h
  refine ⟨a.length, ?_⟩
  rw [append_assoc, drop_left]
  exact prefix_append d b

theorem eq_piece (h : first d l = some pos) : l = l.take pos ++ d ++ l.drop (pos + d.length) := by
  obtain ⟨⟨t, ht⟩, -⟩ := first_eq_some h
  rw [← drop_drop, ← ht, drop_left, append_assoc, ht, take_append_drop]

theorem not_infix_piece (hd : d ≠ []) (h : first d l = some pos) : ¬ d <:+: l.take pos := by
  intro hin
  obtain ⟨k, hk⟩ := exists_prefix_drop hin
  obtain ⟨hat, hlen⟩ := prefix_drop_take_iff.1 hk
  have := length_pos_of_ne_nil hd
  exact (first_eq_some h).2 k (by omega) hat

end Pieces

/-! ### The whole loop -/

variable {L : LuaState} {d : Bytes}

theorem joinLoop_later {v s table} (h : L.text? v = some s) :
    joinLoop L d true (v :: table) = d ++ joinLoop L d false (v :: table) := by
  simp [joinLoop, h]

/-- What the loop pushes from some point on joins to what is left of the string there. -/
theorem splitLoop_spec (hd : d ≠ []) (fuel : Nat) (l : Splitting) (hfuel : l.s.length < fuel) (h0 : 0 ∉ l.s) :
    ∃ p ps, splitLoop d fuel l = some (l.table ++ (p :: ps).map .string) ∧ (∀ q ∈ p :: ps, ¬ d <:+: q) ∧
      joinLoop L d false ((p :: ps).map .string) = l.s := by
  induction fuel generalizing l with
  | zero => omega
  | succ fuel ih =>
    cases hfir : first d l.s with
    | none =>
      refine ⟨l.s, [], ?_, ?_, ?_⟩
      · simp [splitLoop, Splitting.next, hfir, pushString, cString_of_notMem h0]
      · rw [forall_mem_singleton]
        intro hin
        obtain ⟨k, hk⟩ := exists_prefix_drop hin
        exact first_eq_none hfir k hk
      · simp [joinLoop, LuaState.text?, cString_of_notMem h0]
    | some pos =>
      have hpc := eq_piece hfir
      have hlen := congrArg length hpc
      have hpos := length_pos_of_ne_nil hd
      have h0' : 0 ∉ l.s.take pos := fun hmem => h0 (mem_of_mem_take hmem)
      have hstep : splitLoop d (fuel + 1) l =
          splitLoop d fuel ⟨l.table ++ [.string (l.s.take pos)], l.s.drop (pos + d.length)⟩ := by
        simp [splitLoop, Splitting.next, hfir, pushString, cString_of_notMem h0']
      rw [length_append, length_append] at hlen
      obtain ⟨p, ps, heq, hno, hjoin⟩ := ih ⟨l.table ++ [.string (l.s.take pos)], l.s.drop (pos + d.length)⟩
        (by dsimp only; omega) fun hmem => h0 (mem_of_mem_drop hmem)
      refine ⟨l.s.take pos, p :: ps, ?_, forall_mem_cons.2 ⟨not_infix_piece hd hfir, hno⟩, ?_⟩
      · rw [hstep, heq]
        simp
      · have hlat : joinLoop L d true ((p :: ps).map .string) = d ++ l.s.drop (pos + d.length) :=
          (joinLoop_later rfl).trans (congrArg (d ++ ·) hjoin)
        conv_rhs => rw [hpc, append_assoc, ← hlat]
        simp [joinLoop, LuaState.text?, cString_of_notMem h0']

theorem splitLoop_nil (fuel : Nat) (l : Splitting) : splitLoop [] fuel l = none := by
  induction fuel generalizing l with
  | zero => rfl
  | succ fuel ih =>
    have hfir : first [] l.s = some 0 := by cases l.s <;> simp [first]
    simp [splitLoop, Splitting.next, hfir, ih]

/-- `utils.split` returns, no piece holds the delimiter, and `utils.join` gives the string back. -/
def SplitsBack (L : LuaState) (str delim : Bytes) : Prop :=
  ∃ (fuel : Nat) (pieces : List Bytes), luaSplit fuel str delim = some (pieces.map .string) ∧
    (delim ≠ [] → ∀ p ∈ pieces, ¬ delim <:+: p) ∧ luaJoin L (pieces.map .string) delim = str

theorem not_splitsBack_nil (L : LuaState) (str : Bytes) : ¬ SplitsBack L str [] := by
  rintro ⟨fuel, pieces, hspl, -⟩
  rw [luaSplit, cString_of_notMem not_mem_nil, splitLoop_nil] at hspl
  cases hspl

/-- With any delimiter but the empty one, `utils.join` undoes `utils.split`. -/
theorem splitsBack_iff (L : LuaState) (str delim : CString) : SplitsBack L str.1 delim.1 ↔ delim.1 ≠ [] := by
  constructor
  · intro h hnil
    rw [hnil] at h
    exact not_splitsBack_nil L str.1 h
  · intro hne
    obtain ⟨p, ps, hspl, hno, hjoin⟩ :=
      splitLoop_spec (L := L) hne (str.1.length + 1) ⟨[], str.1⟩ (Nat.lt_succ_self _) str.2
    refine ⟨str.1.length + 1, p :: ps, ?_, fun _ => hno, ?_⟩
    · rw [luaSplit, cString_of_notMem str.2, cString_of_notMem delim.2]
      exact hspl
    · rw [luaJoin, cString_of_notMem delim.2]
      exact hjoin

theorem empty_delimiter_not_splitsBack : ¬∃ L, SplitsBack L (utf8 "a,b") [] :=
  not_exists.2 (not_splitsBack_nil · _)

end CloudeLoader.LuaHost
