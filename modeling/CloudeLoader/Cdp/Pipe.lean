import CloudeLoader.Engine.Encoding
import CloudeLoader.Lib.Delimited

/-!
# The pipe to the browser (`cdp_connector.cc`)

`pipe_read_loop` reads chunks from the pipe and hands every message that ends in a NUL to `handle_message`.  There is one
loop for Windows and one for Linux.  In both, what the system answers in a round of the loop is an input.
-/

namespace CloudeLoader.Pipe

open List

open Engine (Bytes)
open Delimited

variable {acts : List Act}

/-! ### The buffer -/

/-- Why a loop is left: the client is not active, or what is written to the log.  When the pipe was replaced the client is shut
down as well. -/
inductive Exit where
  | inactive
  | readCancelled
  | closedByRemote
  | readFailed (err : Nat)
  | pollFailed (errno : Nat)
  | replaced
  | closedOrError
  deriving DecidableEq

inductive Act where
  | leave (e : Exit)
  | proceed
  | receive (n : Nat)
  deriving DecidableEq

/-- A loop, the bytes in the pipe, and the messages that were handed to `handle_message`. -/
structure Reader where
  unread : Bytes
  buffer : Bytes
  handled : List Bytes
  exit : Option Exit
  deriving DecidableEq

namespace Reader

def start (stream : Bytes) : Reader := ⟨stream, [], [], none⟩

def extract : Nat → Reader → Reader
  | 0, s => s
  | fuel + 1, s =>
    match s.buffer.findIdx? (· == 0) with
    | none => s
    | some pos =>
      let message := s.buffer.take pos
      let s := { s with buffer := s.buffer.drop (pos + 1) }
      extract fuel (if message.isEmpty then s else { s with handled := s.handled ++ [message] })

def receive (s : Reader) (n : Nat) : Reader :=
  let buffer := s.buffer ++ s.unread.take n
  extract buffer.length { s with unread := s.unread.drop n, buffer := buffer }

def step (s : Reader) (a : Act) : Reader :=
  if s.exit.isSome then s
  else
    match a with
    | .leave e => { s with exit := some e }
    | .proceed => s
    | .receive n => s.receive n

end Reader

/-! ### The loop on Windows -/

inductive ReadFile where
  | failed (err : Nat)
  | read (bytesRead : Nat)
  deriving DecidableEq

structure FileRound where
  active : Bool
  result : ReadFile
  deriving DecidableEq

def errorBrokenPipe : Nat := 109

def errorOperationAborted : Nat := 995

def FileRound.act (r : FileRound) : Act :=
  if !r.active then .leave .inactive
  else
    match r.result with
    | .failed err =>
      if err = errorBrokenPipe then .leave .closedByRemote
      else if err = errorOperationAborted then .leave .readCancelled
      else .leave (.readFailed err)
    | .read bytesRead => if bytesRead = 0 then .proceed else .receive bytesRead

def pipeReadLoopWindows (stream : Bytes) (rounds : List FileRound) : Reader :=
  (rounds.map FileRound.act).foldl Reader.step (.start stream)

/-! ### The loop on Linux -/

structure Revents where
  pollin : Bool
  pollhup : Bool
  pollerr : Bool
  pollnval : Bool
  deriving DecidableEq

def Revents.closed (v : Revents) : Bool := v.pollhup || v.pollerr || v.pollnval

/-- What `poll` returns: the events of the pipe, and whether there is input on `cancel_fd` and on `pipe_change_fd`. -/
inductive Poll where
  | failed (errno : Nat)
  | ready (data : Revents) (cancel change : Bool)
  deriving DecidableEq

inductive Read where
  | failed (errno : Nat)
  | read (n : Nat)
  deriving DecidableEq

/-- What `is_active`, `poll` and, if it is called, `read` return in a round. -/
structure Round where
  active : Bool
  poll : Poll
  read : Read
  deriving DecidableEq

def eintr : Nat := 4

def Round.act (watches : Bool) (r : Round) : Act :=
  if !r.active then .leave .inactive
  else
    match r.poll with
    | .failed errno => if errno = eintr then .proceed else .leave (.pollFailed errno)
    | .ready data cancel change =>
      if cancel then .leave .readCancelled
      else if watches && change then .leave .replaced
      else if data.closed then .leave .closedOrError
      else if !data.pollin then .proceed
      else
        match r.read with
        | .failed errno => .leave (.readFailed errno)
        | .read n => if n = 0 then .leave .closedByRemote else .receive n

def pipeReadLoopLinux (watches : Bool) (stream : Bytes) (rounds : List Round) : Reader :=
  (rounds.map (Round.act watches)).foldl Reader.step (.start stream)

/-! ### What has been read -/

namespace Reader

variable {s : Reader} {seen stream : Bytes}

theorem extract_eq {fuel} (h : s.buffer.length ≤ fuel) :
    s.extract fuel = { s with buffer := remainder 0 s.buffer, handled := s.handled ++ frames 0 s.buffer } := by
  induction fuel generalizing s with
  | zero =>
    have hemp : s.buffer = [] := length_eq_zero_iff.1 (Nat.le_zero.1 h)
    have hno : (0 : UInt8) ∉ s.buffer := by simp [hemp]
    rw [remainder_of_notMem hno, frames_of_notMem hno, append_nil, extract]
  | succ fuel ih =>
    rw [extract]
    cases hfind : s.buffer.findIdx? (· == 0) with
    | none =>
      have hno : (0 : UInt8) ∉ s.buffer := fun hmem => by
        simpa using findIdx?_eq_none_iff.1 hfind 0 hmem
      rw [remainder_of_notMem hno, frames_of_notMem hno, append_nil]
    | some pos =>
      obtain ⟨hpc, hno⟩ := eq_piece_of_findIdx? hfind
      have hlen := congrArg List.length hpc
      rw [length_append, length_cons] at hlen
      have hfrm := @frames_piece _ _ _ _ _ (s.buffer.drop (pos + 1)) hno
      have hrest := @remainder_piece _ _ _ _ _ (s.buffer.drop (pos + 1)) hno
      rw [← hpc] at hfrm hrest
      rw [hfrm, hrest, frame]
      dsimp only
      split
      · rw [ih (by dsimp only; omega), nil_append]
      · rw [ih (by dsimp only; omega), append_assoc]

theorem receive_eq (s : Reader) (n : Nat) :
    s.receive n =
      { s with
        unread := s.unread.drop n
        buffer := remainder 0 (s.buffer ++ s.unread.take n)
        handled := s.handled ++ frames 0 (s.buffer ++ s.unread.take n) } :=
  extract_eq (Nat.le_refl _)

/-- The buffer and the calls of `handle_message` are those of the bytes that were read. -/
structure HasRead (s : Reader) (seen stream : Bytes) : Prop where
  stream_eq : stream = seen ++ s.unread
  buffer_eq : s.buffer = remainder 0 seen
  handled_eq : s.handled = frames 0 seen

theorem hasRead_start (stream : Bytes) : (start stream).HasRead [] stream :=
  ⟨rfl, rfl, rfl⟩

theorem HasRead.receive (h : s.HasRead seen stream) (n : Nat) :
    (s.receive n).HasRead (seen ++ s.unread.take n) stream := by
  rw [receive_eq]
  constructor
  · rw [h.stream_eq, append_assoc, take_append_drop]
  · rw [h.buffer_eq, ← remainder_append]
  · rw [h.buffer_eq, h.handled_eq, ← frames_append]

theorem step_of_exit {a} (h : s.exit.isSome = true) : s.step a = s := if_pos h

theorem step_of_running {a} (h : s.exit = none) :
    s.step a =
      match a with
      | .leave e => { s with exit := some e }
      | .proceed => s
      | .receive n => s.receive n :=
  if_neg (by simp [h])

theorem foldl_step_of_exit (h : s.exit.isSome = true) : acts.foldl step s = s := by
  induction acts with
  | nil => rfl
  | cons a acts ih => rw [foldl_cons, step_of_exit h, ih]

end Reader

/-! ### Runs of a loop -/

def Act.size : Act → Nat
  | .receive n => n
  | _ => 0

def Act.Fits (unread : Bytes) : Act → Prop
  | .receive n => 0 < n ∧ n ≤ unread.length
  | _ => True

/-- Every round is one that is possible with the bytes that are unread then. -/
def Along {ρ : Type} (act : ρ → Act) (ok : Bytes → ρ → Prop) : Bytes → List ρ → Prop
  | _, [] => True
  | unread, r :: rounds => ok unread r ∧ Along act ok (unread.drop (act r).size) rounds

theorem Along.map {ρ : Type} {act : ρ → Act} {ok : Bytes → ρ → Prop} {P : Bytes → Act → Prop}
    (himp : ∀ unread r, ok unread r → P unread (act r)) {unread rounds}
    (h : Along act ok unread rounds) : Along id P unread (rounds.map act) := by
  induction rounds generalizing unread with
  | nil => trivial
  | cons r rounds ih => exact ⟨himp unread r h.1, ih h.2⟩

def received : List Act → Nat
  | [] => 0
  | .leave _ :: _ => 0
  | .proceed :: acts => received acts
  | .receive n :: acts => n + received acts

theorem Reader.HasRead.foldl_step {s seen stream} (h : s.HasRead seen stream)
    (hrun : s.exit = none) (hfits : Along id Act.Fits s.unread acts) (hlong : s.unread.length < acts.countP (· ≠ .proceed)) :
    (acts.foldl Reader.step s).exit.isSome = true ∧
      (acts.foldl Reader.step s).handled = frames 0 (seen ++ s.unread.take (received acts)) := by
  induction acts generalizing s seen with
  | nil => cases hlong
  | cons a acts ih =>
    rw [foldl_cons, Reader.step_of_running hrun]
    cases a with
    | leave e =>
      rw [Reader.foldl_step_of_exit rfl]
      exact ⟨rfl, by rw [received, take_zero, append_nil]; exact h.handled_eq⟩
    | proceed =>
      exact ih h hrun hfits.2 (by simpa using hlong)
    | receive n =>
      obtain ⟨⟨hpos, hle⟩, hrest⟩ := hfits
      have hunr : (s.receive n).unread = s.unread.drop n := by rw [Reader.receive_eq]
      have hnext := ih (h.receive n) (by rw [Reader.receive_eq]; exact hrun) (by rw [hunr]; exact hrest) (by
        rw [countP_cons_of_pos (by simp)] at hlong
        rw [hunr, length_drop]
        omega)
      rw [hunr, append_assoc, ← take_add] at hnext
      exact hnext

theorem length_le_received {unread}
    (h : Along id (fun unread a => a.Fits unread ∧ ∀ e, a = .leave e → unread = []) unread acts)
    (hlong : unread.length < acts.countP (· ≠ .proceed)) : unread.length ≤ received acts := by
  induction acts generalizing unread with
  | nil => cases hlong
  | cons a acts ih =>
    obtain ⟨⟨hfits, hlv⟩, hrest⟩ := h
    cases a with
    | leave e => rw [hlv e rfl]; exact Nat.zero_le _
    | proceed =>
      exact ih hrest (by simpa using hlong)
    | receive n =>
      rw [countP_cons_of_pos (by simp)] at hlong
      obtain ⟨hpos, hle⟩ := hfits
      have hlen := length_drop (i := n) (l := unread)
      have hnext := ih hrest (by rw [id, Act.size]; omega)
      rw [id, Act.size, hlen] at hnext
      rw [received]
      omega

/-! ### The messages of the browser -/

/-- The client is active, and `ReadFile` returns bytes until the pipe is empty and closed. -/
def FileRound.Ok (unread : Bytes) (r : FileRound) : Prop :=
  r.active = true ∧
    match r.result with
    | .failed err => err = errorBrokenPipe ∧ unread = []
    | .read n => n ≤ 4096 ∧ n ≤ unread.length

def Round.closes (r : Round) : Bool :=
  match r.poll with
  | .failed errno => errno ≠ eintr
  | .ready data _ _ => data.closed

def Round.callsRead (r : Round) : Bool :=
  match r.poll with
  | .failed _ => false
  | .ready data _ _ => !data.closed && data.pollin

def Round.taken (r : Round) : Nat :=
  match r.read with
  | .failed _ => 0
  | .read n => if r.callsRead then n else 0

/-- The client is active, the read is not cancelled and the pipe is not replaced.  `poll` may answer anything else, and `read`
returns bytes until the pipe is empty and closed. -/
structure Round.Ok (watches : Bool) (unread : Bytes) (r : Round) : Prop where
  active : r.active = true
  undisturbed : ∀ data cancel change, r.poll = .ready data cancel change → cancel = false ∧ (watches && change) = false
  reads : r.callsRead = true → ∃ n, r.read = .read n ∧ n ≤ 4096 ∧ n ≤ unread.length ∧ (n = 0 → unread = [])

def readBeforeClose : List Round → Nat
  | [] => 0
  | r :: rounds => if r.closes then 0 else r.taken + readBeforeClose rounds

/-- The loop is left, and exactly the messages of the stream were handed over. -/
def Delivered (s : Reader) (stream : Bytes) : Prop := s.exit.isSome = true ∧ s.handled = frames 0 stream

section Delivery

variable {stream unread : Bytes} {watches : Bool} {r : Round} {rounds : List Round}

theorem FileRound.Ok.act {r : FileRound} (h : r.Ok unread) :
    r.act.Fits unread ∧ ∀ e, r.act = .leave e → unread = [] := by
  obtain ⟨active, result⟩ := r
  obtain ⟨rfl, hres⟩ := h
  cases result with
  | failed err =>
    obtain ⟨rfl, rfl⟩ := hres
    exact ⟨trivial, fun _ _ => rfl⟩
  | read n =>
    simp only [FileRound.act, Bool.not_true, Bool.false_eq_true, if_false]
    by_cases hn : n = 0
    · rw [if_pos hn]
      exact ⟨trivial, by simp⟩
    · rw [if_neg hn]
      exact ⟨⟨Nat.pos_of_ne_zero hn, hres.2⟩, by simp⟩

theorem delivered_windows {rounds : List FileRound} (h : Along FileRound.act FileRound.Ok stream rounds)
    (hlong : stream.length < (rounds.map FileRound.act).countP (· ≠ .proceed)) :
    Delivered (pipeReadLoopWindows stream rounds) stream := by
  have hfits : Along id Act.Fits stream (rounds.map FileRound.act) := h.map fun _ _ hok => hok.act.1
  have hdrn : Along id (fun unread a => a.Fits unread ∧ ∀ e, a = .leave e → unread = []) stream
      (rounds.map FileRound.act) := h.map fun _ _ hok => hok.act
  have hread := (Reader.hasRead_start stream).foldl_step rfl hfits hlong
  rw [Reader.start, take_of_length_le (length_le_received hdrn hlong)] at hread
  exact hread

theorem Round.Ok.act_cases (h : r.Ok watches unread) :
    (∃ e, r.act watches = .leave e ∧ (r.closes = true ∨ r.closes = false ∧ r.taken = 0 ∧ unread = [])) ∨
      (r.act watches = .proceed ∧ r.closes = false ∧ r.taken = 0) ∨
      (r.act watches = .receive r.taken ∧ r.closes = false ∧ 0 < r.taken ∧ r.taken ≤ unread.length) := by
  obtain ⟨active, poll, read⟩ := r
  obtain ⟨rfl, hund, hrds⟩ := h
  cases poll with
  | failed errno =>
    by_cases herr : errno = eintr
    · refine .inr (.inl ⟨by simp [Round.act, herr], by simp [Round.closes, herr], ?_⟩)
      cases read <;> rfl
    · exact .inl ⟨.pollFailed errno, by simp [Round.act, herr], .inl (by simp [Round.closes, herr])⟩
  | ready data cancel change =>
    obtain ⟨rfl, hchn⟩ := hund data cancel change rfl
    by_cases hcls : data.closed = true
    · exact .inl ⟨.closedOrError, by simp [Round.act, hchn, hcls], .inl hcls⟩
    rw [Bool.not_eq_true] at hcls
    by_cases hin : data.pollin = true
    · obtain ⟨n, rfl, -, hle, hemp⟩ := hrds (by simp [Round.callsRead, hcls, hin])
      have htak : Round.taken ⟨true, .ready data false change, .read n⟩ = n := by
        simp [Round.taken, Round.callsRead, hcls, hin]
      rw [htak]
      by_cases hn : n = 0
      · exact .inl ⟨.closedByRemote, by simp [Round.act, hchn, hcls, hin, hn], .inr ⟨hcls, hn, hemp hn⟩⟩
      · exact .inr (.inr ⟨by simp [Round.act, hchn, hcls, hin, hn], hcls, Nat.pos_of_ne_zero hn, hle⟩)
    · refine .inr (.inl ⟨by simp [Round.act, hchn, hcls, hin], hcls, ?_⟩)
      cases read <;> simp [Round.taken, Round.callsRead, hin]

theorem Round.Ok.fits (h : r.Ok watches unread) : (r.act watches).Fits unread := by
  rcases h.act_cases with ⟨e, hact, -⟩ | ⟨hact, -⟩ | ⟨hact, -, hpos, hle⟩
  · rw [hact]
    trivial
  · rw [hact]
    trivial
  · rw [hact]
    exact ⟨hpos, hle⟩

theorem readBeforeClose_of_empty (h : Along (Round.act watches) (Round.Ok watches) [] rounds) : readBeforeClose rounds = 0 := by
  induction rounds with
  | nil => rfl
  | cons r rounds ih =>
    obtain ⟨hok, hrest⟩ := h
    rw [drop_nil] at hrest
    rw [readBeforeClose, ih hrest]
    rcases hok.act_cases with ⟨e, -, hcls | ⟨-, htak, -⟩⟩ | ⟨-, -, htak⟩ | ⟨-, -, hpos, hle⟩
    · rw [if_pos hcls]
    · rw [htak, ite_self]
    · rw [htak, ite_self]
    · exact absurd hle (by simp; omega)

theorem received_eq (h : Along (Round.act watches) (Round.Ok watches) unread rounds) :
    received (rounds.map (Round.act watches)) = readBeforeClose rounds := by
  induction rounds generalizing unread with
  | nil => rfl
  | cons r rounds ih =>
    obtain ⟨hok, hrest⟩ := h
    have hnext := ih hrest
    rw [map_cons, readBeforeClose]
    rcases hok.act_cases with ⟨e, hact, hcls | ⟨hopen, htak, rfl⟩⟩ | ⟨hact, hopen, htak⟩ | ⟨hact, hopen, -⟩
    · rw [hact, if_pos hcls, received]
    · rw [drop_nil] at hrest
      rw [hact, hopen, htak, readBeforeClose_of_empty hrest]
      rfl
    · rw [hact, hopen, htak, received, hnext, Nat.zero_add]
      rfl
    · rw [hact, hopen, received, hnext]
      rfl

theorem delivered_linux_iff (h : Along (Round.act watches) (Round.Ok watches) stream rounds)
    (hlong : stream.length < (rounds.map (Round.act watches)).countP (· ≠ .proceed)) :
    Delivered (pipeReadLoopLinux watches stream rounds) stream ↔
      ∀ i, readBeforeClose rounds ≤ i → stream[i]? = some 0 → i = 0 ∨ stream[i - 1]? = some 0 := by
  have hfits : Along id Act.Fits stream (rounds.map (Round.act watches)) := h.map fun _ _ hok => hok.fits
  have hread := (Reader.hasRead_start stream).foldl_step rfl hfits hlong
  rw [List.nil_append, Reader.start, received_eq h] at hread
  have hcut := @frames_append_eq_left_iff _ _ _ (0 : UInt8) (stream.take (readBeforeClose rounds))
    (stream.drop (readBeforeClose rounds))
  rw [List.take_append_drop, List.length_take] at hcut
  rw [Delivered, pipeReadLoopLinux, Reader.start, hread.2, and_iff_right hread.1, eq_comm, hcut]
  refine forall_congr' fun i => ?_
  constructor
  · intro hall hle hd
    exact hall (by omega) hd
  · intro hall hle hd
    have hlt := (List.getElem?_eq_some_iff.1 hd).1
    exact hall (by omega) hd

/-- Both loops hand over every message if and only if the one on Linux does, which leaves unread what is in the pipe when it is
reported closed. -/
theorem framing_iff {files : List FileRound} (hfile : Along FileRound.act FileRound.Ok stream files)
    (hfiles : stream.length < (files.map FileRound.act).countP (· ≠ .proceed))
    (hround : Along (Round.act watches) (Round.Ok watches) stream rounds)
    (hrounds : stream.length < (rounds.map (Round.act watches)).countP (· ≠ .proceed)) :
    Delivered (pipeReadLoopWindows stream files) stream ∧ Delivered (pipeReadLoopLinux watches stream rounds) stream ↔
      ∀ i, readBeforeClose rounds ≤ i → stream[i]? = some 0 → i = 0 ∨ stream[i - 1]? = some 0 := by
  rw [and_iff_right (delivered_windows hfile hfiles)]
  exact delivered_linux_iff hround hrounds

end Delivery

def inputRound (closed : Bool) (n : Nat) : Round := ⟨true, .ready ⟨true, closed, false, false⟩ false false, .read n⟩

theorem inputRound_ok {closed n unread}
    (h : closed = false → n ≤ 4096 ∧ n ≤ unread.length ∧ (n = 0 → unread = [])) : (inputRound closed n).Ok true unread := by
  refine ⟨rfl, ?_, ?_⟩
  · rintro data cancel change ⟨⟩
    exact ⟨rfl, rfl⟩
  · intro hcal
    cases closed with
    | true => cases hcal
    | false => exact ⟨n, rfl, h rfl⟩

theorem framing_read_then_closed :
    Delivered (pipeReadLoopWindows [97, 0] [⟨true, .read 2⟩, ⟨true, .failed errorBrokenPipe⟩, ⟨true, .failed errorBrokenPipe⟩])
        [97, 0] ∧
      Delivered (pipeReadLoopLinux true [97, 0] [inputRound false 2, inputRound true 0, inputRound true 0]) [97, 0] := by
  have hcls : FileRound.Ok [] ⟨true, .failed errorBrokenPipe⟩ := ⟨rfl, rfl, rfl⟩
  have hfile : Along FileRound.act FileRound.Ok [97, 0]
      [⟨true, .read 2⟩, ⟨true, .failed errorBrokenPipe⟩, ⟨true, .failed errorBrokenPipe⟩] :=
    ⟨⟨rfl, by decide, by decide⟩, hcls, hcls, trivial⟩
  have hrnd : Along (Round.act true) (Round.Ok true) [97, 0] [inputRound false 2, inputRound true 0, inputRound true 0] :=
    ⟨inputRound_ok (by decide), inputRound_ok (by decide), inputRound_ok (by decide), trivial⟩
  refine (framing_iff hfile (by decide) hrnd (by decide)).2 ?_
  intro i hi hd
  rw [getElem?_eq_none hi] at hd
  cases hd

theorem hangup_loses_message :
    Along (Round.act true) (Round.Ok true) [97, 0] (List.replicate 3 (inputRound true 2)) ∧
      [97, 0].length < ((List.replicate 3 (inputRound true 2)).map (Round.act true)).countP (· ≠ .proceed) ∧
      ¬ Delivered (pipeReadLoopLinux true [97, 0] (List.replicate 3 (inputRound true 2))) [97, 0] := by
  refine ⟨⟨inputRound_ok (by decide), inputRound_ok (by decide), inputRound_ok (by decide), trivial⟩, by decide, ?_⟩
  rintro ⟨-, hhan⟩
  exact absurd hhan (by decide)

end CloudeLoader.Pipe
