import CloudeLoader.Ipc.Framing
import CloudeLoader.Lib.Transition

/-!
# Frames on a MEP connection (`mep_server.cc`)

The handler thread of a client writes responses and other threads push events, all through `write_frame` on the same
socket.
-/

namespace CloudeLoader.Mep

open List Option

open Ipc (toLe32 fromLe32 frame fromLe32_toLe32)

/-! ### Threads that write -/

/-- A thread inside `write_frame`: which of the two calls of `send_all` it is in, and the variable `total` of that call. -/
structure Writer where
  thread : Nat
  payload : List UInt8
  inPayload : Bool
  total : Nat
  deriving DecidableEq

namespace Writer

def header (w : Writer) : List UInt8 := toLe32 (w.payload.length % 2 ^ 32)

def buf (w : Writer) : List UInt8 := if w.inPayload then w.payload else w.header

def begun (w : Writer) : Bool := w.inPayload || 0 < w.total

def sentPart (w : Writer) : List UInt8 := (if w.inPayload then w.header else []) ++ w.buf.take w.total

def advance (w : Writer) (n : Nat) : Option Writer :=
  if w.total + n < w.buf.length then some { w with total := w.total + n }
  else if w.inPayload then none
  else if w.payload = [] then none
  else some { w with inPayload := true, total := 0 }

def bytes (w : Writer) (n : Nat) : List UInt8 := (w.buf.drop w.total).take n

end Writer

/-- A connection: the payloads `write_frame` was called with, the threads that are inside `write_frame`, the payloads of the
calls that returned true, and the bytes that were sent. -/
structure Channel where
  called : List (List UInt8)
  writing : List Writer
  done : List (List UInt8)
  wire : List UInt8
  deriving DecidableEq

inductive Event where
  | call (thread : Nat) (payload : List UInt8)
  | send (thread : Nat) (n : Nat)
  | fail (thread : Nat)
  deriving DecidableEq

namespace Channel

def start : Channel := ⟨[], [], [], []⟩

def others (s : Channel) (thread : Nat) : List Writer := s.writing.filter (·.thread ≠ thread)

def sent (s : Channel) (w : Writer) (n : Nat) : Channel :=
  match w.advance n with
  | some w' => { s with writing := w' :: s.others w.thread, wire := s.wire ++ w.bytes n }
  | none => { s with writing := s.others w.thread, done := s.done ++ [w.payload], wire := s.wire ++ w.bytes n }

def step (s : Channel) : Event → Option Channel
  | .call thread payload =>
    if s.writing.any (·.thread == thread) then none
    else some { s with called := s.called ++ [payload], writing := ⟨thread, payload, false, 0⟩ :: s.writing }
  | .send thread n =>
    match s.writing.find? (·.thread == thread) with
    | none => none
    | some w => if 0 < n ∧ w.total + n ≤ w.buf.length then some (s.sent w n) else none
  | .fail thread =>
    if s.writing.any (·.thread == thread) then some { s with writing := s.others thread } else none

/-- Nothing fails, the length fits its four bytes, and a thread sends only while no other thread is in the middle of a
frame. -/
def undisturbed (s : Channel) : Event → Bool
  | .call _ payload => payload.length < 2 ^ 32
  | .send thread _ => (s.others thread).all fun w => !w.begun
  | .fail _ => false

/-- The finished calls are whole frames on the wire, in some order and each once, and behind them comes the part that is sent
of at most one frame. -/
structure WholeFrames (s : Channel) : Prop where
  wire : ∃ order, (order ++ s.writing.map (·.payload)).Perm s.called ∧
    s.wire = order.flatMap frame ++ s.writing.flatMap (·.sentPart)
  one : (s.writing.filter (·.begun)).length ≤ 1
  length : ∀ payload ∈ s.called, fromLe32 ((frame payload).take 4) = payload.length ∧ (frame payload).drop 4 = payload

end Channel

namespace Writer

variable {w w' : Writer} {n : Nat}

theorem sentPart_of_not_begun (h : w.begun = false) : w.sentPart = [] := by
  simp only [begun, Bool.or_eq_false_iff, decide_eq_false_iff_not] at h
  simp [sentPart, h.1, show w.total = 0 by omega]

theorem sentPart_append_bytes (w : Writer) (n : Nat) :
    w.sentPart ++ w.bytes n = (if w.inPayload then w.header else []) ++ w.buf.take (w.total + n) := by
  rw [sentPart, bytes, append_assoc, take_add]

theorem advance_some (h : w.advance n = some w') :
    w'.thread = w.thread ∧ w'.payload = w.payload ∧ w'.sentPart = w.sentPart ++ w.bytes n := by
  rw [sentPart_append_bytes]
  unfold advance at h
  by_cases hlt : w.total + n < w.buf.length
  · rw [if_pos hlt] at h
    cases h
    exact ⟨rfl, rfl, rfl⟩
  · rw [if_neg hlt, take_of_length_le (by omega)] at *
    cases hpart : w.inPayload with
    | true => simp [hpart] at h
    | false =>
      by_cases hemp : w.payload = []
      · simp [hpart, hemp] at h
      · simp only [hpart, hemp, if_false, Bool.false_eq_true] at h
        cases h
        exact ⟨rfl, rfl, by simp [sentPart, buf, hpart, header]⟩

theorem advance_none (h : w.advance n = none) : w.sentPart ++ w.bytes n = frame w.payload := by
  rw [sentPart_append_bytes]
  unfold advance at h
  by_cases hlt : w.total + n < w.buf.length
  · simp [hlt] at h
  · rw [take_of_length_le (by omega)]
    cases hpart : w.inPayload with
    | true => simp [buf, hpart, header, frame]
    | false =>
      by_cases hemp : w.payload = []
      · simp [buf, hpart, header, frame, hemp]
      · simp [hlt, hpart, hemp] at h

end Writer

namespace Channel

variable {s s' : Channel} {w w' : Writer} {thread n : Nat}

/-! ### One step -/

def OneCall (s : Channel) : Prop := (s.writing.map (·.thread)).Nodup

theorem perm_others (h : s.OneCall) (hw : w ∈ s.writing) : s.writing.Perm (w :: s.others w.thread) := by
  have hnod : s.writing.Nodup := List.Nodup.of_map _ h
  have hoth : s.others w.thread = s.writing.erase w := by
    rw [hnod.erase_eq_filter]
    refine filter_congr fun v hv => ?_
    have : v.thread = w.thread ↔ v = w := ⟨fun heq => inj_on_of_nodup_map h hv hw heq, fun heq => heq ▸ rfl⟩
    by_cases heq : v = w <;> simp [this, heq]
  rw [hoth]
  exact perm_cons_erase hw

theorem oneCall_others (h : s.OneCall) : ((s.others thread).map (·.thread)).Nodup := h.sublist (filter_sublist.map _)

theorem thread_notMem_others : thread ∉ (s.others thread).map (·.thread) := by simp [others]

theorem flatMap_sentPart_eq_nil {ws : List Writer} (h : ws.all (fun w => !w.begun) = true) :
    ws.flatMap (·.sentPart) = [] := by
  rw [flatMap_eq_nil_iff]
  intro w hw
  exact Writer.sentPart_of_not_begun (by simpa using all_eq_true.1 h w hw)

theorem flatMap_sentPart_eq (h : s.OneCall) (hw : w ∈ s.writing)
    (hoth : (s.others w.thread).all (fun w => !w.begun) = true) : s.writing.flatMap (·.sentPart) = w.sentPart := by
  have hemp : ∀ v ∈ s.writing, v.thread ≠ w.thread → v.sentPart = [] := by
    intro v hv hne
    have hmem : v ∈ s.others w.thread := mem_filter.2 ⟨hv, by simpa using hne⟩
    exact Writer.sentPart_of_not_begun (by simpa using all_eq_true.1 hoth v hmem)
  obtain ⟨pre, post, hspl⟩ := append_of_mem hw
  have hne : ∀ v ∈ pre ++ post, v.thread ≠ w.thread := by
    rw [OneCall, hspl, map_append, map_cons, nodup_middle, nodup_cons, ← map_append] at h
    intro v hv heq
    exact h.1 (mem_map.2 ⟨v, hv, heq⟩)
  have hnil : ∀ vs : List Writer, (∀ v ∈ vs, v ∈ pre ++ post) → vs.flatMap (·.sentPart) = [] := by
    intro vs hvs
    rw [flatMap_eq_nil_iff]
    intro v hv
    refine hemp v ?_ (hne v (hvs v hv))
    rw [hspl]
    exact mem_append.2 ((mem_append.1 (hvs v hv)).imp id (mem_cons_of_mem _))
  rw [hspl, flatMap_append, flatMap_cons, hnil pre (fun v => mem_append_left _),
    hnil post (fun v => mem_append_right _), nil_append, append_nil]

structure Orderly (s : Channel) : Prop where
  oneCall : s.OneCall
  perm : (s.done ++ s.writing.map (·.payload)).Perm s.called
  wire : s.wire = s.done.flatMap frame ++ s.writing.flatMap (·.sentPart)
  one : (s.writing.filter (·.begun)).length ≤ 1
  short : ∀ payload ∈ s.called, payload.length < 2 ^ 32

theorem Orderly.start : Orderly start := ⟨.nil, .nil, rfl, by decide, by simp [Channel.start]⟩

theorem Orderly.called (h : Orderly s) {payload} (hnew : s.writing.any (·.thread == thread) = false)
    (hshr : payload.length < 2 ^ 32) :
    Orderly { s with called := s.called ++ [payload], writing := ⟨thread, payload, false, 0⟩ :: s.writing } where
  oneCall := by
    refine nodup_cons.2 ⟨fun hmem => ?_, h.oneCall⟩
    obtain ⟨w, hw, hthr⟩ := List.mem_map.1 hmem
    simp only [List.any_eq_false, beq_iff_eq] at hnew
    exact hnew w hw hthr
  perm := by
    refine List.Perm.trans ?_ (h.perm.append_right [payload])
    simp only [map_cons, append_assoc]
    exact (perm_append_singleton _ _).symm.append_left _
  wire := h.wire
  one := h.one
  short := by
    intro p hp
    obtain hp | hp := mem_append.1 hp
    · exact h.short p hp
    · rwa [mem_singleton.1 hp]

theorem Orderly.sent (h : Orderly s) (hw : w ∈ s.writing) (hoth : (s.others w.thread).all (fun w => !w.begun) = true) :
    Orderly (s.sent w n) := by
  have hperm := perm_others h.oneCall hw
  have hnil := flatMap_sentPart_eq_nil hoth
  have hwire : s.wire = s.done.flatMap frame ++ w.sentPart := by rw [h.wire, flatMap_sentPart_eq h.oneCall hw hoth]
  have hnone : (s.others w.thread).filter (·.begun) = [] := by
    rw [filter_eq_nil_iff]
    intro v hv
    simpa using all_eq_true.1 hoth v hv
  have hpay : (s.done ++ w.payload :: (s.others w.thread).map (·.payload)).Perm s.called :=
    ((hperm.map Writer.payload).symm.append_left s.done).trans h.perm
  unfold Channel.sent
  cases hadv : w.advance n with
  | some w' =>
    obtain ⟨hthr, hpyl, hsent⟩ := Writer.advance_some hadv
    refine ⟨?_, ?_, ?_, ?_, h.short⟩
    · exact nodup_cons.2 ⟨hthr ▸ thread_notMem_others, oneCall_others h.oneCall⟩
    · rwa [map_cons, hpyl]
    · rw [flatMap_cons, hnil, hsent, hwire, append_nil, append_assoc]
    · rw [filter_cons, hnone]
      split <;> simp
  | none =>
    refine ⟨oneCall_others h.oneCall, ?_, ?_, ?_, h.short⟩
    · simpa using hpay
    · rw [hnil, hwire, append_assoc, Writer.advance_none hadv, append_nil]
      simp
    · rw [hnone]
      simp

theorem Orderly.step {e} (h : Orderly s) (hok : s.undisturbed e = true) (hstep : s.step e = some s') : Orderly s' := by
  cases e with
  | call thread payload =>
    simp only [Channel.step] at hstep
    split at hstep <;> cases hstep
    next hnew =>
    exact h.called (by simpa using hnew) (by simpa [undisturbed] using hok)
  | send thread n =>
    simp only [Channel.step] at hstep
    cases hfind : s.writing.find? (·.thread == thread) with
    | none => simp [hfind] at hstep
    | some w =>
      obtain rfl : w.thread = thread := by simpa using find?_some hfind
      rw [hfind] at hstep
      simp only [ite_none_right_eq_some, Option.some.injEq] at hstep
      obtain ⟨-, rfl⟩ := hstep
      exact h.sent (mem_of_find?_eq_some hfind) hok
  | fail thread => cases hok

/-! ### Every run -/

theorem Orderly.wholeFrames (h : Orderly s) : s.WholeFrames where
  wire := ⟨s.done, h.perm, h.wire⟩
  one := h.one
  length := by
    intro payload hp
    have hlen := h.short payload hp
    refine ⟨?_, rfl⟩
    show fromLe32 (toLe32 (payload.length % 2 ^ 32)) = payload.length
    rw [Nat.mod_eq_of_lt hlen, fromLe32_toLe32 hlen]

/-- In a run in which no send fails, every length fits and a thread sends only while no other thread is in the middle of a
frame, the client sees whole frames: the frames of the finished calls, each once, and behind them a part of at most one
frame. -/
theorem wholeFrames_of_reaches (s : Channel) (h : Transition.ReachesBy step undisturbed start s) : s.WholeFrames :=
  (h.preserves Orderly.start fun ha hok hstep => ha.step hok hstep).wholeFrames

theorem wholeFrames_two : WholeFrames ⟨[[1, 2], [3]], [], [[1, 2], [3]], [2, 0, 0, 0, 1, 2, 1, 0, 0, 0, 3]⟩ :=
  wholeFrames_of_reaches _ ⟨[.call 0 [1, 2], .call 1 [3], .send 0 4, .send 0 1, .send 0 1, .send 1 4, .send 1 1], by decide,
    by decide⟩

theorem frames_torn : ∃ s, Transition.run step start
    [.call 0 [1], .call 1 [2], .send 0 4, .send 1 4, .send 0 1, .send 1 1] = some s ∧ s.writing = [] ∧ ¬ s.WholeFrames := by
  refine ⟨⟨[[1], [2]], [], [[1], [2]], [1, 0, 0, 0, 1, 0, 0, 0, 1, 2]⟩, by decide, rfl, ?_⟩
  rintro ⟨⟨order, hperm, hwire⟩, -, -⟩
  have hmem : order ∈ permutations' [[1], [2]] := mem_permutations'.2 (by simpa using hperm)
  have hall : ∀ order ∈ permutations' [[1], [2]], [1, 0, 0, 0, 1, 0, 0, 0, 1, 2] ≠ flatMap frame order := by decide
  exact hall order hmem (by simpa using hwire)

end Channel

end CloudeLoader.Mep
