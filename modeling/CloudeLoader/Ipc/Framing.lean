import Mathlib

/-!
# Frames (`plugin_ipc.h`)

Parent and child exchange MessagePack documents over a stream socket, each preceded by its length in four bytes.
-/

namespace CloudeLoader.Ipc

open List Option Nat

def maxFrameSize : Nat := 16 * 1024 * 1024

/-! ### Receiving -/

/-- The bytes that are still to come, and the number of calls of `recv` so far. -/
structure Conn where
  bytes : List UInt8
  calls : Nat
  deriving DecidableEq

/-- `recv` of at most `n` bytes.  At the end of the stream it returns 0; else it returns at least one byte, and not more
than were asked for or are there. -/
def Conn.recv (grant : Nat → Nat) (c : Conn) (n : Nat) : List UInt8 × Conn :=
  let r := min (max 1 (grant c.calls)) n
  (c.bytes.take r, ⟨c.bytes.drop r, c.calls + 1⟩)

def Conn.recvLoop (grant : Nat → Nat) : Nat → Nat → Conn → Option (List UInt8 × Conn)
  | _, 0, c => some ([], c)
  | 0, _ + 1, _ => none
  | fuel + 1, n + 1, c =>
    let (bs, c') := c.recv grant (n + 1)
    if bs.length = 0 then none
    else (recvLoop grant fuel (n + 1 - bs.length) c').map fun x => (bs ++ x.1, x.2)

def Conn.recvAll (grant : Nat → Nat) (n : Nat) (c : Conn) : Option (List UInt8 × Conn) := c.recvLoop grant n n

def fromLe32 : List UInt8 → Nat
  | [a, b, c, d] => a.toNat + 256 * b.toNat + 65536 * c.toNat + 16777216 * d.toNat
  | _ => 0

def Conn.readFrame (grant : Nat → Nat) (c : Conn) : Option (List UInt8 × Conn) :=
  match c.recvAll grant 4 with
  | none => none
  | some (header, c) =>
    let len := fromLe32 header
    if len = 0 ∨ len > maxFrameSize then none else c.recvAll grant len

/-! ### Sending -/

structure Sink where
  bytes : List UInt8
  calls : Nat
  deriving DecidableEq

/-- The loop of `send_all`, for at most `fuel` rounds.  `accept` is what `send` returns: an error if it is not positive, else
no more than were given. -/
def Sink.sendLoop (accept : Nat → Int) : Nat → List UInt8 → Sink → Bool × Sink
  | _, [], c => (true, c)
  | 0, _ :: _, c => (false, c)
  | fuel + 1, b :: bs, c =>
    let s := min (accept c.calls) (b :: bs).length
    if s ≤ 0 then (false, ⟨c.bytes, c.calls + 1⟩)
    else sendLoop accept fuel ((b :: bs).drop s.toNat) ⟨c.bytes ++ (b :: bs).take s.toNat, c.calls + 1⟩

def Sink.sendAll (accept : Nat → Int) (bs : List UInt8) (c : Sink) : Bool × Sink := c.sendLoop accept bs.length bs

def toLe32 (n : Nat) : List UInt8 :=
  [UInt8.ofNat n, UInt8.ofNat (n / 256), UInt8.ofNat (n / 65536), UInt8.ofNat (n / 16777216)]

def Sink.writeFrame (accept : Nat → Int) (payload : List UInt8) (c : Sink) : Bool × Sink :=
  match c.sendAll accept (toLe32 (payload.length % 2 ^ 32)) with
  | (false, c) => (false, c)
  | (true, c) => c.sendAll accept payload

/-! ### Messages -/

structure Codec (α : Type*) where
  toMsgpack : α → List UInt8
  fromMsgpack : List UInt8 → Option α
  fromMsgpack_toMsgpack : ∀ m, fromMsgpack (toMsgpack m) = some m

variable {α : Type*}

def Sink.writeMsg (codec : Codec α) (accept : Nat → Int) (m : α) (c : Sink) : Bool × Sink :=
  c.writeFrame accept (codec.toMsgpack m)

def Conn.readMsg (codec : Codec α) (grant : Nat → Nat) (c : Conn) : Option ((List UInt8 × α) × Conn) :=
  match c.readFrame grant with
  | none => none
  | some (payload, c) => (codec.fromMsgpack payload).map fun m => ((payload, m), c)

def Sink.writeMsgs (codec : Codec α) (accept : Nat → Int) : List α → Sink → Option Sink
  | [], c => some c
  | m :: ms, c =>
    match c.writeMsg codec accept m with
    | (false, _) => none
    | (true, c) => writeMsgs codec accept ms c

def Conn.readMsgs (codec : Codec α) (grant : Nat → Nat) : Nat → Conn → Option (List (List UInt8 × α) × Conn)
  | 0, c => some ([], c)
  | n + 1, c =>
    match c.readMsg codec grant with
    | none => none
    | some (m, c) => (readMsgs codec grant n c).map fun x => (m :: x.1, x.2)

/-! ### The transfer loops -/

section Transfer

variable {grant : Nat → Nat} {accept : Nat → Int}

theorem Conn.recvLoop_spec (grant : Nat → Nat) {fuel n} (hfuel : n ≤ fuel) (c : Conn) :
    (∃ calls, n ≤ c.bytes.length ∧ c.recvLoop grant fuel n = some (c.bytes.take n, ⟨c.bytes.drop n, calls⟩)) ∨
      (c.bytes.length < n ∧ c.recvLoop grant fuel n = none) := by
  induction fuel generalizing n c with
  | zero =>
    obtain rfl : n = 0 := le_zero.1 hfuel
    exact .inl ⟨c.calls, zero_le _, rfl⟩
  | succ fuel ih =>
    cases n with
    | zero => exact .inl ⟨c.calls, zero_le _, rfl⟩
    | succ n =>
      -- a round takes `r` bytes, at least one and no more than are wanted
      obtain ⟨r, hr, hpos, hle⟩ : ∃ r, r = min (max 1 (grant c.calls)) (n + 1) ∧ 1 ≤ r ∧ r ≤ n + 1 := ⟨_, rfl, by omega, by omega⟩
      by_cases hemp : c.bytes = []
      · refine .inr ⟨by simp [hemp], ?_⟩
        simp [recvLoop, recv, hemp]
      have hlen : 0 < c.bytes.length := length_pos_iff.2 hemp
      have htake : (c.bytes.take r).length = min r c.bytes.length := length_take
      have hunf : c.recvLoop grant (fuel + 1) (n + 1) =
          ((⟨c.bytes.drop r, c.calls + 1⟩ : Conn).recvLoop grant fuel (n + 1 - (c.bytes.take r).length)).map
            fun x => (c.bytes.take r ++ x.1, x.2) := by
        rw [recvLoop]
        simp only [recv, ← hr]
        rw [if_neg (by omega)]
      rw [hunf]
      rcases ih (n := n + 1 - (c.bytes.take r).length) (by omega) ⟨c.bytes.drop r, c.calls + 1⟩ with
        ⟨calls, hrest, e⟩ | ⟨hrest, e⟩
      · rw [length_drop] at hrest
        have hr' : r ≤ c.bytes.length := by omega
        rw [e]
        refine .inl ⟨calls, by omega, ?_⟩
        simp only [map_some, drop_drop]
        rw [htake, min_eq_left hr', ← take_add,
          show r + (n + 1 - r) = n + 1 by omega]
      · rw [length_drop] at hrest
        rw [e]
        exact .inr ⟨by omega, rfl⟩

theorem Conn.recvAll_append (grant : Nat → Nat) (bs rest : List UInt8) (calls : Nat) :
    ∃ calls', (⟨bs ++ rest, calls⟩ : Conn).recvAll grant bs.length = some (bs, ⟨rest, calls'⟩) := by
  rcases recvLoop_spec grant (le_refl bs.length) ⟨bs ++ rest, calls⟩ with ⟨calls', -, e⟩ | ⟨h, -⟩
  · rw [take_left, drop_left] at e
    exact ⟨calls', e⟩
  · rw [length_append] at h
    omega

theorem Conn.length_of_recvAll {n : Nat} {c c' : Conn} {bs : List UInt8} (e : c.recvAll grant n = some (bs, c')) :
    bs.length = n := by
  rcases recvLoop_spec grant (le_refl n) c with ⟨calls, hle, e'⟩ | ⟨-, e'⟩
  · obtain ⟨rfl, -⟩ : c.bytes.take n = bs ∧ _ := by simpa using e'.symm.trans e
    rw [length_take]
    omega
  · simp [recvAll, e'] at e

theorem Sink.sendLoop_true {fuel : Nat} {bs : List UInt8} {c c' : Sink} (e : c.sendLoop accept fuel bs = (true, c')) :
    c'.bytes = c.bytes ++ bs := by
  induction fuel generalizing bs c with
  | zero =>
    cases bs with
    | nil =>
      obtain rfl : c = c' := by simpa [sendLoop] using e
      rw [append_nil]
    | cons b bs => simp [sendLoop] at e
  | succ fuel ih =>
    cases bs with
    | nil =>
      obtain rfl : c = c' := by simpa [sendLoop] using e
      rw [append_nil]
    | cons b bs =>
      rw [sendLoop] at e
      split at e
      · simp at e
      · rw [ih e]
        rw [append_assoc, take_append_drop]

end Transfer

/-! ### Frames -/

section Frames

variable {grant : Nat → Nat} {accept : Nat → Int}

theorem length_toLe32 (n : Nat) : (toLe32 n).length = 4 := rfl

theorem fromLe32_toLe32 {n} (h : n < 2 ^ 32) : fromLe32 (toLe32 n) = n := by
  simp only [toLe32, fromLe32, UInt8.toNat_ofNat']
  omega

def frame (payload : List UInt8) : List UInt8 := toLe32 (payload.length % 2 ^ 32) ++ payload

theorem Sink.writeFrame_true {payload : List UInt8} {c c' : Sink} (e : c.writeFrame accept payload = (true, c')) :
    c'.bytes = c.bytes ++ frame payload := by
  unfold writeFrame at e
  split at e
  · simp at e
  next c₁ e₁ =>
    rw [sendLoop_true e, sendLoop_true e₁, append_assoc]
    rfl

theorem Conn.readFrame_refused {payload rest calls}
    (h : payload.length % 2 ^ 32 = 0 ∨ payload.length % 2 ^ 32 > maxFrameSize) :
    (⟨frame payload ++ rest, calls⟩ : Conn).readFrame grant = none := by
  obtain ⟨calls', e⟩ := recvAll_append grant (toLe32 (payload.length % 2 ^ 32)) (payload ++ rest) calls
  rw [length_toLe32] at e
  unfold readFrame frame
  rw [append_assoc, e]
  dsimp only
  rw [fromLe32_toLe32 (mod_lt _ (by decide)), if_pos h]

theorem Conn.readFrame_frame {payload} (rest : List UInt8) (calls : Nat) (hpos : 0 < payload.length)
    (hmax : payload.length ≤ maxFrameSize) :
    ∃ calls', (⟨frame payload ++ rest, calls⟩ : Conn).readFrame grant = some (payload, ⟨rest, calls'⟩) := by
  have hlt : payload.length < 2 ^ 32 := lt_of_le_of_lt hmax (by decide)
  obtain ⟨calls₁, e₁⟩ := recvAll_append grant (toLe32 (payload.length % 2 ^ 32)) (payload ++ rest) calls
  obtain ⟨calls₂, e₂⟩ := recvAll_append grant payload rest calls₁
  refine ⟨calls₂, ?_⟩
  rw [length_toLe32] at e₁
  unfold readFrame frame
  rw [append_assoc, e₁]
  dsimp only
  rw [fromLe32_toLe32 (mod_lt _ (by decide)), mod_eq_of_lt hlt, if_neg (by omega), e₂]

theorem Conn.length_of_readFrame {c c' : Conn} {payload : List UInt8} (e : c.readFrame grant = some (payload, c')) :
    0 < payload.length ∧ payload.length ≤ maxFrameSize := by
  unfold readFrame at e
  split at e
  · simp at e
  next header c₁ _ =>
    dsimp only at e
    split at e
    · simp at e
    next hlen =>
      rw [length_of_recvAll e]
      omega

end Frames

/-! ### Sequences of messages -/

section Messages

variable {codec : Codec α} {grant : Nat → Nat} {accept : Nat → Int}

def wire (codec : Codec α) (ms : List α) : List UInt8 := ms.flatMap fun m => frame (codec.toMsgpack m)

theorem Sink.writeMsgs_some {ms : List α} {c c' : Sink} (e : c.writeMsgs codec accept ms = some c') :
    c'.bytes = c.bytes ++ wire codec ms := by
  induction ms generalizing c with
  | nil =>
    obtain rfl : c = c' := by simpa [writeMsgs] using e
    simp [wire]
  | cons m ms ih =>
    unfold writeMsgs at e
    split at e
    · simp at e
    next c₁ e₁ =>
      rw [ih e, writeFrame_true e₁, wire, wire, flatMap_cons, append_assoc]

theorem Conn.readMsgs_wire {ms} (hms : ∀ m ∈ ms, 0 < (codec.toMsgpack m).length ∧
    (codec.toMsgpack m).length ≤ maxFrameSize) (rest : List UInt8) (calls : Nat) :
    ∃ calls', (⟨wire codec ms ++ rest, calls⟩ : Conn).readMsgs codec grant ms.length =
      some (ms.map fun m => (codec.toMsgpack m, m), ⟨rest, calls'⟩) := by
  induction ms generalizing calls with
  | nil => exact ⟨calls, rfl⟩
  | cons m ms ih =>
    obtain ⟨hpos, hmax⟩ := hms m (mem_cons_self)
    obtain ⟨calls₁, e₁⟩ := @readFrame_frame grant _ (wire codec ms ++ rest) calls hpos hmax
    obtain ⟨calls₂, e₂⟩ := ih (fun m' hm' => hms m' (mem_cons_of_mem _ hm')) calls₁
    refine ⟨calls₂, ?_⟩
    have hread : (⟨wire codec (m :: ms) ++ rest, calls⟩ : Conn).readMsg codec grant =
        some ((codec.toMsgpack m, m), ⟨wire codec ms ++ rest, calls₁⟩) := by
      unfold readMsg
      rw [wire, flatMap_cons, append_assoc]
      rw [wire] at e₁
      rw [e₁]
      dsimp only
      rw [codec.fromMsgpack_toMsgpack]
      rfl
    rw [length_cons, readMsgs, hread]
    dsimp only
    rw [e₂]
    rfl

theorem Conn.length_of_readMsgs {n : Nat} {c c' : Conn} {out : List (List UInt8 × α)}
    (e : c.readMsgs codec grant n = some (out, c')) : ∀ x ∈ out, 0 < x.1.length ∧ x.1.length ≤ maxFrameSize := by
  induction n generalizing c out with
  | zero =>
    obtain ⟨rfl, -⟩ : [] = out ∧ c = c' := by simpa [readMsgs] using e
    simp
  | succ n ih =>
    unfold readMsgs at e
    split at e
    · simp at e
    next m c₁ hread =>
      obtain ⟨x, hx, e⟩ := map_eq_some_iff.1 e
      obtain ⟨rfl, rfl⟩ : m :: x.1 = out ∧ x.2 = c' := by simpa using e
      intro y hy
      rcases mem_cons.1 hy with rfl | hy
      · unfold readMsg at hread
        split at hread
        · simp at hread
        next payload c₂ hfrm =>
          obtain ⟨m', -, e'⟩ := map_eq_some_iff.1 hread
          obtain ⟨rfl, -⟩ : (payload, m') = y ∧ c₂ = c₁ := by simpa using e'
          exact length_of_readFrame hfrm
      · exact ih hx y hy

end Messages

/-- The peer reads exactly the frames that were written, with nothing left over, for exactly those sequences of messages
whose payloads have a size between 1 and `MAX_FRAME_SIZE`; `write_frame` accepts any size. -/
theorem readMsgs_eq_iff (codec : Codec α) (accept : Nat → Int) (grant : Nat → Nat) (ms : List α) {sent : Sink}
    (hsent : (⟨[], 0⟩ : Sink).writeMsgs codec accept ms = some sent) :
    (∃ calls, (⟨sent.bytes, 0⟩ : Conn).readMsgs codec grant ms.length =
      some (ms.map fun m => (codec.toMsgpack m, m), ⟨[], calls⟩)) ↔
    ∀ m ∈ ms, 0 < (codec.toMsgpack m).length ∧ (codec.toMsgpack m).length ≤ maxFrameSize := by
  have hbyt : sent.bytes = wire codec ms ++ [] := by
    rw [Sink.writeMsgs_some hsent, nil_append, append_nil]
  rw [hbyt]
  constructor
  · rintro ⟨calls, e⟩ m hm
    exact Conn.length_of_readMsgs e _ (mem_map_of_mem hm)
  · intro hms
    exact Conn.readMsgs_wire hms [] 0

def bytesCodec : Codec (List UInt8) := ⟨id, some, fun _ => rfl⟩

theorem readMsgs_eq_iff_pieces :
    ∃ calls, (⟨[1, 0, 0, 0, 7, 2, 0, 0, 0, 8, 9], 0⟩ : Conn).readMsgs bytesCodec (fun k => k % 4) 2 =
      some ([([7], [7]), ([8, 9], [8, 9])], ⟨[], calls⟩) :=
  (@readMsgs_eq_iff _ bytesCodec (fun _ => 1) (fun k => k % 4) [[7], [8, 9]]
    ⟨[1, 0, 0, 0, 7, 2, 0, 0, 0, 8, 9], 11⟩ (by decide)).2 (by decide)

theorem Sink.sendAll_generous (accept : Nat → Int) {bs} (h : ∀ k, (bs.length : Int) ≤ accept k) (c : Sink) :
    (c.sendAll accept bs).1 = true := by
  unfold sendAll
  cases bs with
  | nil => simp [sendLoop]
  | cons b bs =>
    have hmin : min (accept c.calls) ((b :: bs).length : Int) = (b :: bs).length := Int.min_eq_right (h c.calls)
    rw [length_cons, sendLoop]
    simp only [hmin]
    rw [Int.toNat_natCast, drop_length]
    cases bs <;> rfl

theorem large_refused {payload : List UInt8} (hlar : maxFrameSize < payload.length) (hlen : payload.length < 2 ^ 31) :
    ∃ sent, (⟨[], 0⟩ : Sink).writeMsgs bytesCodec (fun _ => 2 ^ 31) [payload] = some sent ∧
      ∀ grant, (⟨sent.bytes, 0⟩ : Conn).readMsg bytesCodec grant = none := by
  have hhdr := @Sink.sendAll_generous (fun _ => 2 ^ 31) (toLe32 (payload.length % 2 ^ 32))
    (fun _ => by rw [length_toLe32]; decide) ⟨[], 0⟩
  obtain ⟨sent, hsent⟩ : ∃ sent, (⟨[], 0⟩ : Sink).writeMsgs bytesCodec (fun _ => 2 ^ 31) [payload] = some sent := by
    cases e₁ : (⟨[], 0⟩ : Sink).sendAll (fun _ => 2 ^ 31) (toLe32 (payload.length % 2 ^ 32)) with
    | mk ok₁ c₁ =>
      rw [e₁] at hhdr
      subst hhdr
      cases e₂ : c₁.sendAll (fun _ => 2 ^ 31) payload with
      | mk ok₂ c₂ =>
        have hpay := @Sink.sendAll_generous (fun _ => 2 ^ 31) payload (fun _ => by omega) c₁
        rw [e₂] at hpay
        subst hpay
        refine ⟨c₂, ?_⟩
        have hwrt : (⟨[], 0⟩ : Sink).writeMsg bytesCodec (fun _ => 2 ^ 31) payload = (true, c₂) := by
          show Sink.writeFrame _ payload _ = _
          unfold Sink.writeFrame
          rw [e₁]
          exact e₂
        rw [Sink.writeMsgs, hwrt]
        rfl
  refine ⟨sent, hsent, fun grant => ?_⟩
  have hbyt : sent.bytes = frame payload ++ [] := by
    rw [Sink.writeMsgs_some hsent]
    simp [wire, bytesCodec]
  have hmod : payload.length % 2 ^ 32 > maxFrameSize := by
    rw [mod_eq_of_lt (by omega)]
    exact hlar
  unfold Conn.readMsg
  rw [hbyt, Conn.readFrame_refused (.inr hmod)]

theorem largeMessage_refused :
    ∃ sent, (⟨[], 0⟩ : Sink).writeMsgs bytesCodec (fun _ => 2 ^ 31) [List.replicate (maxFrameSize + 1) 0] = some sent ∧
      ∀ grant, (⟨sent.bytes, 0⟩ : Conn).readMsg bytesCodec grant = none := by
  apply large_refused
  · rw [length_replicate]
    exact lt_succ_self _
  · rw [length_replicate]
    decide

end CloudeLoader.Ipc
