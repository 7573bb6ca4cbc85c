import CloudeLoader.Engine.Encoding
import CloudeLoader.Lib.Occurrence
import Mathlib.Data.List.Chain

/-!
# The response filter that puts a tag into HTML pages (`loopback/main.cc`)

CEF hands the chunks of a page to `hif_filter`, together with the room it has for output, and offers again what was not
read.  `Cef.run` is that loop.
-/

namespace CloudeLoader.HtmlFilter

open List Option

open Engine (Bytes utf8 isAlnum cString isPrefix_cString cString_of_notMem)
open Occurrence

/-! ### The tag -/

structure PathToken where
  bytes : Bytes
  length_eq : bytes.length = 32
  alnum : ∀ b ∈ bytes, isAlnum b = true

def linkOpen : Bytes := utf8 "<link rel=\"modulepreload\" href=\"https://cloude.ftp/"

def link (token : PathToken) (file : Bytes) : Bytes := linkOpen ++ token.bytes ++ file

def injectTag (token : PathToken) : Bytes :=
  link token (utf8 "/cloude.js\">") ++ link token (utf8 "/cloude-frontend.js\">")

theorem length_injectTag (token : PathToken) : (injectTag token).length = 199 := by
  simp only [injectTag, link, length_append, token.length_eq]
  rfl

/-! ### The filter -/

inductive Status where
  | needMoreData
  | done
  deriving DecidableEq

structure Filter where
  pending : Bytes
  pendingPos : Nat
  injected : Bool
  deriving DecidableEq

def Filter.new : Filter := ⟨[], 0, false⟩

def Filter.settle (f : Filter) : Filter :=
  if f.pendingPos ≥ f.pending.length then { f with pending := [], pendingPos := 0 } else f

/-- What a call leaves behind: `data_in_read`, the bytes in `data_out`, and the status. -/
structure Reply where
  filter : Filter
  read : Nat
  written : Bytes
  status : Status
  deriving DecidableEq

def headWord : Bytes := utf8 "<head"

def gt : UInt8 := 62

/-- `strstr` for `<head` and `strchr` for `>`, and the buffer that is flushed then; nothing while there is no `<head` and the
buffer is small. -/
def search (tag buf : Bytes) : Option Bytes :=
  match first headWord (cString buf) with
  | none => if buf.length < 4096 then none else some buf
  | some head =>
    match ((cString buf).drop head).findIdx? (· == gt) with
    | none => some buf
    | some close => some (splice buf (head + close + 1) tag)

def hifFilter (tag : Bytes) (f : Filter) (dataIn : Bytes) (outSize : Nat) : Reply :=
  if f.pendingPos < f.pending.length then
    -- a buffer that still waits for its `<head` is flushed here too
    let toWrite := min (f.pending.length - f.pendingPos) outSize
    ⟨({ f with pendingPos := f.pendingPos + toWrite } : Filter).settle, 0, (f.pending.drop f.pendingPos).take toWrite,
      .needMoreData⟩
  else if f.injected then
    if dataIn = [] then ⟨f, 0, [], .done⟩
    else
      let toWrite := min dataIn.length outSize
      ⟨f, toWrite, dataIn.take toWrite, .needMoreData⟩
  else if dataIn = [] then ⟨{ f with injected := true }, 0, [], .done⟩
  else
    let buf := f.pending ++ dataIn
    match search tag buf with
    | none => ⟨⟨buf, 0, false⟩, dataIn.length, [], .needMoreData⟩
    | some flushed =>
      let toWrite := min flushed.length outSize
      ⟨(⟨flushed, toWrite, true⟩ : Filter).settle, dataIn.length, flushed.take toWrite, .needMoreData⟩

/-! ### The calls of CEF -/

def dropRead : List Bytes → Nat → List Bytes
  | [], _ => []
  | chunk :: chunks, n => if chunk.length ≤ n then chunks else chunk.drop n :: chunks

structure Cef where
  filter : Filter
  unread : List Bytes
  output : Bytes
  calls : Nat

/-- CEF calls with what is unread of the first chunk until everything is read and the filter is done; `outs` is the room for
output in each call. -/
def Cef.run (tag : Bytes) (outs : Nat → Nat) : Nat → Cef → Option Bytes
  | 0, _ => none
  | fuel + 1, s =>
    let r := hifFilter tag s.filter (s.unread.headD []) (outs s.calls)
    let unread := dropRead s.unread r.read
    if unread = [] ∧ r.status = .done then some (s.output ++ r.written)
    else Cef.run tag outs fuel ⟨r.filter, unread, s.output ++ r.written, s.calls + 1⟩

def filterPage (tag : Bytes) (outs : Nat → Nat) (fuel : Nat) (chunks : List Bytes) : Option Bytes :=
  Cef.run tag outs fuel ⟨Filter.new, chunks.filter (· ≠ []), [], 0⟩

/-! ### What comes out -/

def spliced (tag : Bytes) : List Bytes → Bytes
  | [] => []
  | chunk :: chunks =>
    match search tag chunk with
    | none => chunk ++ spliced tag chunks
    | some flushed => flushed ++ chunks.flatten

def Filter.rest (f : Filter) : Bytes := f.pending.drop f.pendingPos

def Filter.ahead (tag : Bytes) (f : Filter) (unread : List Bytes) : Bytes :=
  f.rest ++ if f.injected then unread.flatten else spliced tag unread

def Filter.Settled (f : Filter) : Prop := f.pendingPos < f.pending.length ∨ f.pending = [] ∧ f.pendingPos = 0

theorem Filter.settled_settle (f : Filter) : f.settle.Settled := by
  unfold settle
  split
  · exact .inr ⟨rfl, rfl⟩
  · exact .inl (by omega)

@[simp] theorem Filter.rest_settle (f : Filter) : f.settle.rest = f.rest := by
  unfold settle rest
  split
  · rw [drop_of_length_le (l := f.pending) (by omega)]
    rfl
  · rfl

@[simp] theorem Filter.injected_settle (f : Filter) : f.settle.injected = f.injected := by
  unfold settle
  split <;> rfl

theorem Filter.rest_eq_nil {f : Filter} (hpos : ¬ f.pendingPos < f.pending.length) : f.rest = [] := by
  rw [rest, drop_of_length_le (by omega)]

theorem flatten_dropRead (chunk : Bytes) (chunks : List Bytes) (n : Nat) :
    chunk.take n ++ (dropRead (chunk :: chunks) n).flatten = chunk ++ chunks.flatten := by
  simp only [dropRead]
  split
  · rw [take_of_length_le (by omega)]
  · rw [flatten_cons, ← append_assoc, take_append_drop]

theorem length_search_le {tag buf flushed} (h : search tag buf = some flushed) :
    flushed.length ≤ buf.length + tag.length := by
  unfold search at h
  split at h
  · split at h <;> cases h
    omega
  · split at h
    · cases h
      omega
    · cases h
      rw [length_splice]

theorem nonempty_dropRead {chunks} (h : ∀ chunk ∈ chunks, chunk ≠ []) (n : Nat) :
    ∀ chunk ∈ dropRead chunks n, chunk ≠ [] := by
  cases chunks with
  | nil => simp [dropRead]
  | cons chunk chunks =>
    simp only [dropRead]
    split
    · exact fun b hb => h b (mem_cons_of_mem _ hb)
    · intro b hb
      obtain rfl | hb := mem_cons.1 hb
      · simp only [ne_eq, drop_eq_nil_iff]
        omega
      · exact h b (mem_cons_of_mem _ hb)

def Filter.rank (tag : Bytes) (f : Filter) (unread : List Bytes) : Nat :=
  2 * unread.flatten.length + f.rest.length + if f.injected then 0 else tag.length + 1

structure CallOk (tag : Bytes) (f : Filter) (unread : List Bytes) (r : Reply) : Prop where
  ahead : r.written ++ r.filter.ahead tag (dropRead unread r.read) = f.ahead tag unread
  settled : r.filter.Settled
  progress : (r.status = .done ∧ dropRead unread r.read = [] ∧ r.filter.rest = []) ∨
    r.status = .needMoreData ∧ r.filter.rank tag (dropRead unread r.read) < f.rank tag unread

variable {tag : Bytes} {f : Filter} {unread : List Bytes} {n : Nat}

theorem dropRead_zero (h : ∀ chunk ∈ unread, chunk ≠ []) : dropRead unread 0 = unread := by
  cases unread with
  | nil => rfl
  | cons chunk chunks =>
    have hne : chunk.length ≠ 0 := by
      simpa using h chunk (by simp)
    simp [dropRead, hne]

theorem callOk_flush (hunr : ∀ chunk ∈ unread, chunk ≠ []) (hn : 0 < n) (hpos : f.pendingPos < f.pending.length) :
    CallOk tag f unread (hifFilter tag f (unread.headD []) n) := by
  simp only [hifFilter, hpos, if_true]
  set toWrite := min (f.pending.length - f.pendingPos) n with hto
  have hrest : (f.pending.drop f.pendingPos).take toWrite ++ f.pending.drop (f.pendingPos + toWrite) = f.rest := by
    rw [← drop_drop, take_append_drop]
    rfl
  refine ⟨?_, Filter.settled_settle _, .inr ⟨rfl, ?_⟩⟩
  · simp only [dropRead_zero hunr, Filter.ahead, Filter.rest_settle, Filter.injected_settle, ← append_assoc]
    rw [← hrest]
    rfl
  · simp only [dropRead_zero hunr, Filter.rank, Filter.rest_settle, Filter.injected_settle]
    simp only [Filter.rest, length_drop]
    omega

theorem callOk_passThrough (hset : f.Settled) (hunr : ∀ chunk ∈ unread, chunk ≠ []) (hn : 0 < n)
    (hpos : ¬ f.pendingPos < f.pending.length) (hinj : f.injected = true) :
    CallOk tag f unread (hifFilter tag f (unread.headD []) n) := by
  have hrest := Filter.rest_eq_nil hpos
  cases unread with
  | nil =>
    simp only [hifFilter, hpos, hinj, if_true, if_false, headD_nil]
    exact ⟨rfl, hset, .inl ⟨rfl, rfl, hrest⟩⟩
  | cons chunk chunks =>
    have hne : chunk ≠ [] := hunr chunk (by simp)
    have hlen : 0 < chunk.length := length_pos_iff.2 hne
    simp only [hifFilter, hpos, hinj, hne, if_true, if_false, headD_cons]
    have hflat := flatten_dropRead chunk chunks (min chunk.length n)
    refine ⟨?_, hset, .inr ⟨rfl, ?_⟩⟩
    · simp only [Filter.ahead, hrest, hinj, if_true, nil_append, flatten_cons, hflat]
    · have := congrArg length hflat
      simp only [length_append, length_take] at this
      simp only [Filter.rank, flatten_cons, length_append, hinj, if_true]
      omega

theorem callOk_search (hunr : ∀ chunk ∈ unread, chunk ≠ []) (hn : 0 < n) :
    CallOk tag Filter.new unread (hifFilter tag Filter.new (unread.headD []) n) := by
  cases unread with
  | nil => exact ⟨rfl, .inr ⟨rfl, rfl⟩, .inl ⟨rfl, rfl, rfl⟩⟩
  | cons chunk chunks =>
    have hne : chunk ≠ [] := hunr chunk (by simp)
    have hlen : 0 < chunk.length := length_pos_iff.2 hne
    have hdrop : dropRead (chunk :: chunks) chunk.length = chunks := by simp [dropRead]
    cases hs : search tag chunk with
    | none =>
      have hr : hifFilter tag Filter.new chunk n = ⟨⟨chunk, 0, false⟩, chunk.length, [], .needMoreData⟩ := by
        simp [hifFilter, Filter.new, hne, hs]
      rw [headD_cons, hr]
      refine ⟨?_, .inl hlen, .inr ⟨rfl, ?_⟩⟩
      · simp only [hdrop, Filter.ahead, Filter.rest, Filter.new, spliced, hs]
        rfl
      · simp only [hdrop, Filter.rank, Filter.rest, Filter.new, flatten_cons, length_append, drop_zero,
          length_nil, Bool.false_eq_true, if_false]
        omega
    | some flushed =>
      have hr : hifFilter tag Filter.new chunk n = ⟨(⟨flushed, min flushed.length n, true⟩ : Filter).settle, chunk.length,
          flushed.take (min flushed.length n), .needMoreData⟩ := by
        simp [hifFilter, Filter.new, hne, hs]
      have hle := length_search_le hs
      rw [headD_cons, hr]
      refine ⟨?_, Filter.settled_settle _, .inr ⟨rfl, ?_⟩⟩
      · simp only [hdrop, Filter.ahead, Filter.rest_settle, Filter.injected_settle, spliced, hs, ← append_assoc]
        simp only [Filter.rest, Filter.new, take_append_drop]
        rfl
      · simp only [hdrop, Filter.rank, Filter.rest_settle, Filter.injected_settle, flatten_cons, length_append]
        simp only [Filter.rest, Filter.new, length_drop, length_nil, if_true, Bool.false_eq_true, if_false]
        omega

theorem callOk (tag : Bytes) (hset : f.Settled) (hunr : ∀ chunk ∈ unread, chunk ≠ []) (hn : 0 < n) :
    CallOk tag f unread (hifFilter tag f (unread.headD []) n) := by
  by_cases hpos : f.pendingPos < f.pending.length
  · exact callOk_flush hunr hn hpos
  · cases hinj : f.injected with
    | true => exact callOk_passThrough hset hunr hn hpos hinj
    | false =>
      obtain rfl : f = Filter.new := by
        obtain h | ⟨hpen, hzero⟩ := hset
        · exact absurd h hpos
        · obtain ⟨pending, pendingPos, injected⟩ := f
          simp only [Filter.new, Filter.mk.injEq]
          exact ⟨hpen, hzero, hinj⟩
      exact callOk_search hunr hn

theorem Cef.run_eq_ahead {outs : Nat → Nat} (houts : ∀ k, 0 < outs k) {fuel s} (hset : s.filter.Settled)
    (hunr : ∀ chunk ∈ s.unread, chunk ≠ []) (hfuel : s.filter.rank tag s.unread < fuel) :
    Cef.run tag outs fuel s = some (s.output ++ s.filter.ahead tag s.unread) := by
  induction fuel generalizing s with
  | zero => omega
  | succ fuel ih =>
    have hcall := callOk tag hset hunr (houts s.calls)
    unfold Cef.run
    obtain ⟨hdone, hnil, hrest⟩ | ⟨hmore, hrank⟩ := hcall.progress
    · have hahd := hcall.ahead
      rw [Filter.ahead, hrest] at hahd
      simp only [hnil, hdone, and_self, if_true, ← hahd]
      simp [spliced]
    · simp only [hmore, reduceCtorEq, and_false, if_false]
      rw [ih hcall.settled (nonempty_dropRead hunr _) (lt_of_lt_of_le hrank (Nat.lt_succ_iff.1 hfuel)), append_assoc,
        hcall.ahead]

theorem spliced_filter_nonempty (chunks : List Bytes) : spliced tag (chunks.filter (· ≠ [])) = spliced tag chunks := by
  have hemp : search tag [] = none := rfl
  induction chunks with
  | nil => rfl
  | cons chunk chunks ih =>
    by_cases hne : chunk = []
    · rw [filter_cons_of_neg (by simpa using hne), ih, hne, spliced, hemp, nil_append]
    · rw [filter_cons_of_pos (by simpa using hne)]
      simp only [spliced, ih, flatten_filter_ne_nil]

theorem filterPage_eq {outs : Nat → Nat} (houts : ∀ k, 0 < outs k) {chunks fuel}
    (hfuel : 2 * chunks.flatten.length + tag.length + 2 ≤ fuel) :
    filterPage tag outs fuel chunks = some (spliced tag chunks) := by
  have hrank : Filter.new.rank tag (chunks.filter (· ≠ [])) < fuel := by
    simp only [Filter.rank, flatten_filter_ne_nil]
    simp only [Filter.rest, Filter.new, drop_nil, length_nil, Bool.false_eq_true, if_false]
    omega
  have hrun := Cef.run_eq_ahead (s := ⟨Filter.new, chunks.filter (· ≠ []), [], 0⟩) houts (.inr ⟨rfl, rfl⟩) (by simp) hrank
  rw [filterPage, hrun, ← spliced_filter_nonempty]
  rfl

/-! ### Where the tag goes -/

/-- The chunks `pre` make the filter wait, and in `chunk` it finds a `<head`, at `i`, and the next `>`, at `j`. -/
structure Finds (pre : List Bytes) (chunk : Bytes) (i j : Nat) : Prop where
  waits : ∀ b ∈ pre, first headWord (cString b) = none ∧ b.length < 4096
  head : first headWord (cString chunk) = some i
  close : NextAt gt (cString chunk) i j

theorem gt_notMem_headWord : gt ∉ headWord := by decide

variable {pre post chunks : List Bytes} {chunk : Bytes} {i j : Nat}

theorem Finds.at_page (h : Finds pre chunk i j) (post : List Bytes) :
    headWord <+: (pre ++ chunk :: post).flatten.drop (pre.flatten.length + i) ∧
      NextAt gt (pre ++ chunk :: post).flatten (pre.flatten.length + i) (pre.flatten.length + j) := by
  have hbeg : cString chunk <+: chunk ++ post.flatten := (isPrefix_cString chunk).trans (prefix_append _ _)
  rw [flatten_append]
  refine ⟨?_, (h.close.of_prefix hbeg).append_left _⟩
  rw [drop_length_add_append]
  exact (first_eq_some h.head).1.trans (hbeg.drop i)

theorem Finds.search_eq (h : Finds pre chunk i j) : search tag chunk = some (splice chunk (j + 1) tag) := by
  have hle := h.close.1
  simp only [search, h.head, findIdx?_of_nextAt h.close, some.injEq]
  rw [Nat.add_sub_cancel' hle]

theorem spliced_append_of_wait (h : ∀ b ∈ pre, search tag b = none) :
    spliced tag (pre ++ chunks) = pre.flatten ++ spliced tag chunks := by
  induction pre with
  | nil => rfl
  | cons b pre ih =>
    have hb : search tag b = none := h b (by simp)
    simp only [cons_append, spliced, hb, flatten_cons, append_assoc]
    rw [ih fun b' hb' => h b' (mem_cons_of_mem _ hb')]

theorem Finds.spliced_eq (h : Finds pre chunk i j) (post : List Bytes) :
    spliced tag (pre ++ chunk :: post) = splice (pre ++ chunk :: post).flatten (pre.flatten.length + j + 1) tag := by
  have hwait : ∀ b ∈ pre, search tag b = none := fun b hb => by simp [search, h.waits b hb]
  have hj : j + 1 ≤ chunk.length := by
    have := (List.getElem?_eq_some_iff.1 (h.close.of_prefix (isPrefix_cString chunk)).2.1).1
    omega
  rw [spliced_append_of_wait hwait, spliced, h.search_eq, flatten_append, flatten_cons, Nat.add_assoc,
    splice_append_left, splice_append_right hj]

theorem spliced_eq_flatten_or_finds (tag : Bytes) (chunks : List Bytes) :
    spliced tag chunks = chunks.flatten ∨ ∃ pre chunk post i j, chunks = pre ++ chunk :: post ∧ Finds pre chunk i j := by
  induction chunks with
  | nil => exact .inl rfl
  | cons b chunks ih =>
    cases hhead : first headWord (cString b) with
    | none =>
      by_cases hsml : b.length < 4096
      · obtain heq | ⟨pre, chunk, post, i, j, rfl, hfin⟩ := ih
        · left
          simp [spliced, search, hhead, hsml, heq]
        · refine .inr ⟨b :: pre, chunk, post, i, j, rfl, ⟨?_, hfin.head, hfin.close⟩⟩
          exact forall_mem_cons.2 ⟨⟨hhead, hsml⟩, hfin.waits⟩
      · left
        simp [spliced, search, hhead, hsml]
    | some i =>
      cases hcls : ((cString b).drop i).findIdx? (· == gt) with
      | none =>
        left
        simp only [spliced, search, hhead, hcls, flatten_cons]
      | some m => exact .inr ⟨[], b, chunks, i, i + m, rfl, ⟨by simp, hhead, nextAt_of_findIdx? hcls⟩⟩

/-! ### The tag is put in at one place only -/

/-- Every `<` is followed by something other than an `h`. -/
def NoHead (l : Bytes) : Prop := l.IsChain fun a b => a = 60 → b ≠ 104

theorem noHead_of_notMem {l} (h : 60 ∉ l) : NoHead l := by
  refine List.Pairwise.isChain (pairwise_of_forall_mem_list fun a ha _ _ hlt => ?_)
  exact absurd (hlt ▸ ha) h

theorem noHead_append {l l'} (hl : NoHead l) (hl' : NoHead l') (hlast : l.getLast? ≠ some 60) : NoHead (l ++ l') :=
  isChain_append.2 ⟨hl, hl', fun _ ha _ _ hlt => absurd (hlt ▸ ha) hlast⟩

theorem PathToken.notMem (token : PathToken) : 60 ∉ token.bytes := fun h => absurd (token.alnum _ h) (by decide)

theorem getLast?_link (token : PathToken) {file} (h : file ≠ []) : (link token file).getLast? = file.getLast? :=
  getLast?_append_of_ne_nil _ h

theorem noHead_link (token : PathToken) {file} (h : 60 ∉ file) : NoHead (link token file) := by
  rw [link, append_assoc]
  refine noHead_append (by unfold NoHead; decide) (noHead_of_notMem ?_) (by decide)
  exact fun hmem => (mem_append.1 hmem).elim token.notMem h

theorem injectTag_next (token : PathToken) (m : Nat) (hm : m < (injectTag token).length)
    (hlt : (injectTag token)[m]? = some 60) : (injectTag token)[(m + 1) % (injectTag token).length]? ≠ some 104 := by
  have hchn : NoHead (injectTag token) := by
    refine noHead_append (noHead_link token (by decide)) (noHead_link token (by decide)) ?_
    rw [getLast?_link token (by decide)]
    decide
  by_cases hlast : m + 1 < (injectTag token).length
  · rw [getElem?_eq_getElem hm] at hlt
    rw [Nat.mod_eq_of_lt hlast, getElem?_eq_getElem hlast]
    exact fun heq => hchn.getElem m hlast (some.inj hlt) (some.inj heq)
  · have hm' : (injectTag token)[m]? = (injectTag token).getLast? := by
      rw [getLast?_eq_getElem?]
      congr 1
      omega
    have hne : link token (utf8 "/cloude-frontend.js\">") ≠ [] := append_ne_nil_of_right_ne_nil _ (by decide)
    rw [hm', injectTag, getLast?_append_of_ne_nil _ hne, getLast?_link token (by decide)] at hlt
    exact absurd hlt (by decide)

theorem injectTag_ne_nil (token : PathToken) : injectTag token ≠ [] := by
  have := length_injectTag token
  intro h
  simp [h] at this

theorem splice_ne (token : PathToken) {page k} (hat : headWord <+: page.drop i) (hnext : NextAt gt page i j)
    (hk : k ≤ i) : splice page k (injectTag token) ≠ splice page (j + 1) (injectTag token) := by
  have hlen := hnext.length_add_le gt_notMem_headWord hat
  have hj : j < page.length := (List.getElem?_eq_some_iff.1 hnext.2.1).1
  have hget : ∀ x, x < 5 → page[i + x]? = headWord[x]? := by
    intro x hx
    obtain ⟨rest, hrest⟩ := hat
    rw [← getElem?_drop, ← hrest, getElem?_append_left hx]
  have hfive : headWord.length = 5 := rfl
  exact splice_inj (injectTag_ne_nil token) (injectTag_next token) hk (by omega) (by omega) (hget 0 (by omega))
    (hget 1 (by omega))

theorem splice_ne_page (token : PathToken) {page k} : splice page k (injectTag token) ≠ page := by
  intro h
  have := congrArg length h
  rw [length_splice, length_injectTag] at this
  omega

/-! ### Pages that are not spoiled -/

/-- Before the `<head` that the filter finds together with the next `>` in one chunk, no `>` follows a `<head`. -/
def FirstHeadFound (chunks : List Bytes) : Prop :=
  ∀ pre chunk post i j, chunks = pre ++ chunk :: post → Finds pre chunk i j →
    closing headWord gt (pre.flatten ++ chunk.take i) = none

theorem Finds.closing_page (h : Finds pre chunk i j) (post : List Bytes) :
    ∃ j₀, closing headWord gt (pre ++ chunk :: post).flatten = some j₀ ∧
      (j₀ = pre.flatten.length + j ∨ j₀ < pre.flatten.length + i) :=
  exists_closing (h.at_page post).1 (h.at_page post).2

theorem Finds.closing_before_iff (h : Finds pre chunk i j) (post : List Bytes) {j₀}
    (hj₀ : closing headWord gt (pre ++ chunk :: post).flatten = some j₀) :
    closing headWord gt (pre.flatten ++ chunk.take i) = none ↔ ¬ j₀ < pre.flatten.length + i := by
  have hi : i ≤ chunk.length := by
    have := h.close.1
    have := (List.getElem?_eq_some_iff.1 (h.close.of_prefix (isPrefix_cString chunk)).2.1).1
    omega
  have htake : pre.flatten ++ chunk.take i = (pre ++ chunk :: post).flatten.take (pre.flatten.length + i) := by
    rw [flatten_append, flatten_cons, take_length_add_append, take_append_of_le_length hi]
  rw [htake, eq_none_iff_forall_ne_some]
  simp only [ne_eq, closing_take_eq_some_iff gt_notMem_headWord, hj₀, some.injEq, not_and]
  exact ⟨fun hall => hall j₀ rfl, fun hno a ha => ha ▸ hno⟩

/-- The output is the page, or the page with the tag behind the first `>` that follows a `<head`. -/
def Sound (token : PathToken) (page out : Bytes) : Prop :=
  out = page ∨ ∃ j, closing headWord gt page = some j ∧ out = splice page (j + 1) (injectTag token)

theorem Finds.sound_iff (h : Finds pre chunk i j) (token : PathToken) (post : List Bytes) :
    Sound token (pre ++ chunk :: post).flatten (spliced (injectTag token) (pre ++ chunk :: post)) ↔
      closing headWord gt (pre.flatten ++ chunk.take i) = none := by
  obtain ⟨hat, hnext⟩ := h.at_page post
  obtain ⟨j₀, hj₀, hplc⟩ := h.closing_page post
  rw [h.closing_before_iff post hj₀, h.spliced_eq post]
  constructor
  · rintro (heq | ⟨j', hj', heq⟩) hlt
    · exact splice_ne_page token heq
    · rw [hj₀, some.injEq] at hj'
      subst hj'
      exact splice_ne token hat hnext hlt heq.symm
  · intro hlt
    obtain rfl := hplc.resolve_right hlt
    exact .inr ⟨_, hj₀, rfl⟩

/-- Whatever the chunks and the room for output: the loop ends, and what was written is the page or the page with the tag put
in once, behind the first `>` after a `<head`.  That it is the first `<head` of the page is so for just those ways of
cutting up where the filter does not run past one. -/
theorem output_sound_iff (token : PathToken) (chunks : List Bytes) (outs : Nat → Nat) (houts : ∀ k, 0 < outs k) (fuel : Nat)
    (hfuel : 2 * chunks.flatten.length + (injectTag token).length + 2 ≤ fuel) :
    ∃ out, filterPage (injectTag token) outs fuel chunks = some out ∧
      (out = chunks.flatten ∨ ∃ i j, headWord <+: chunks.flatten.drop i ∧ NextAt gt chunks.flatten i j ∧
        out = splice chunks.flatten (j + 1) (injectTag token)) ∧
      (Sound token chunks.flatten out ↔ FirstHeadFound chunks) := by
  refine ⟨_, filterPage_eq houts hfuel, ?_, ?_⟩
  · obtain heq | ⟨pre, chunk, post, i, j, rfl, h⟩ := spliced_eq_flatten_or_finds (injectTag token) chunks
    · exact .inl heq
    · exact .inr ⟨_, _, (h.at_page post).1, (h.at_page post).2, h.spliced_eq post⟩
  · constructor
    · rintro hsnd pre chunk post i j rfl h
      exact (h.sound_iff token post).1 hsnd
    · intro hfnd
      obtain heq | ⟨pre, chunk, post, i, j, rfl, h⟩ := spliced_eq_flatten_or_finds (injectTag token) chunks
      · exact .inl heq
      · exact (h.sound_iff token post).2 (hfnd pre chunk post i j rfl h)

def sampleToken : PathToken := ⟨replicate 32 97, rfl, fun b hb => by rw [eq_of_mem_replicate hb]; rfl⟩

def sampleChunks : List Bytes := [utf8 "<p>", utf8 "<hea", utf8 "<head", utf8 "><head>", utf8 "x"]

theorem output_sound_chunks : ∃ out, filterPage (injectTag sampleToken) (fun _ => 7) 300 sampleChunks = some out ∧
    (out = sampleChunks.flatten ∨ ∃ i j, headWord <+: sampleChunks.flatten.drop i ∧ NextAt gt sampleChunks.flatten i j ∧
      out = splice sampleChunks.flatten (j + 1) (injectTag sampleToken)) ∧
    (Sound sampleToken sampleChunks.flatten out ↔ FirstHeadFound sampleChunks) :=
  output_sound_iff sampleToken sampleChunks (fun _ => 7) (by simp) 300 (by rw [length_injectTag]; decide)

theorem output_behind_header : ∃ out,
    filterPage (injectTag sampleToken) (fun _ => 65536) 300 [utf8 "<he", utf8 "ad><header>"] = some out ∧
      ¬ Sound sampleToken [utf8 "<he", utf8 "ad><header>"].flatten out := by
  have hfin : Finds [utf8 "<he"] (utf8 "ad><header>") 3 10 :=
    ⟨by decide, by decide, by decide, by decide, by decide⟩
  refine ⟨_, filterPage_eq (by simp) (by rw [length_injectTag]; decide), fun hsnd => ?_⟩
  have := (hfin.sound_iff sampleToken []).1 hsnd
  revert this
  decide

/-! ### Pages that get the tag -/

/-- The `>` at position `j` of the page lies in the first chunk that holds a whole `<head`, behind it. -/
def ClosedInChunk (chunks : List Bytes) (j : Nat) : Prop :=
  ∃ pre chunk post i, chunks = pre ++ chunk :: post ∧ (∀ b ∈ pre, first headWord b = none) ∧
    first headWord chunk = some i ∧ pre.flatten.length + i ≤ j ∧ j < pre.flatten.length + chunk.length

theorem cString_of_mem_chunks (h : 0 ∉ chunks.flatten) {b} (hb : b ∈ chunks) : cString b = b :=
  cString_of_notMem fun hmem => h (mem_flatten.2 ⟨b, hb, hmem⟩)

theorem finds_of_closedInChunk (hnul : 0 ∉ (pre ++ chunk :: post).flatten)
    (hclosing : closing headWord gt (pre ++ chunk :: post).flatten = some j) (hsml : j < 4096)
    (hpre : ∀ b ∈ pre, first headWord b = none) (hhead : first headWord chunk = some i) (hi : pre.flatten.length + i ≤ j)
    (hj : j < pre.flatten.length + chunk.length) : Finds pre chunk i (j - pre.flatten.length) := by
  have hcstr : ∀ b ∈ pre ++ chunk :: post, cString b = b := fun b => cString_of_mem_chunks hnul
  have hget : ∀ k < chunk.length, (pre ++ chunk :: post).flatten[pre.flatten.length + k]? = chunk[k]? := by
    intro k hk
    rw [flatten_append, flatten_cons, getElem?_append_right (by omega), Nat.add_sub_cancel_left,
      getElem?_append_left hk]
  refine ⟨fun b hb => ?_, by rw [hcstr chunk (by simp)]; exact hhead, ?_⟩
  · rw [hcstr b (mem_append_left _ hb)]
    have hle : b.length ≤ pre.flatten.length := (sublist_flatten_of_mem hb).length_le
    exact ⟨hpre b hb, by omega⟩
  · obtain ⟨i₀, hi₀, -, hc, hno⟩ := closing_eq_some_iff.1 hclosing
    have hle : i₀ ≤ pre.flatten.length + i := by
      by_contra hlt
      refine (first_eq_some hi₀).2 (pre.flatten.length + i) (by omega) ?_
      rw [flatten_append, drop_length_add_append]
      exact (first_eq_some hhead).1.trans ((prefix_append _ _).drop i)
    rw [hcstr chunk (by simp)]
    refine ⟨by omega, ?_, fun k hik hk => ?_⟩
    · rw [← hget _ (by omega), Nat.add_sub_cancel' (by omega)]
      exact hc
    · rw [← hget k (by omega)]
      exact hno _ (by omega) (by omega)

/-- A page without NUL gets the tag behind its first `<head …>` if and only if the `>` lies in the first chunk that holds a
whole `<head`. -/
theorem output_tagged_iff (token : PathToken) (chunks : List Bytes) (outs : Nat → Nat) (houts : ∀ k, 0 < outs k) (fuel : Nat)
    (hfuel : 2 * chunks.flatten.length + (injectTag token).length + 2 ≤ fuel) (hnul : 0 ∉ chunks.flatten) (j : Nat)
    (hclosing : closing headWord gt chunks.flatten = some j) (hsmall : j < 4096) :
    ∃ out, filterPage (injectTag token) outs fuel chunks = some out ∧
      (out = splice chunks.flatten (j + 1) (injectTag token) ↔ ClosedInChunk chunks j) := by
  refine ⟨_, filterPage_eq houts hfuel, ?_, ?_⟩
  · intro hout
    obtain heq | ⟨pre, chunk, post, i, j', rfl, h⟩ := spliced_eq_flatten_or_finds (injectTag token) chunks
    · exact absurd (hout.symm.trans heq) (splice_ne_page token)
    · have hcstr : ∀ b ∈ pre ++ chunk :: post, cString b = b := fun b => cString_of_mem_chunks hnul
      obtain ⟨hat, hnext⟩ := h.at_page post
      obtain ⟨j₀, hj₀, hplc⟩ := h.closing_page post
      obtain rfl : j₀ = j := some.inj (hj₀.symm.trans hclosing)
      obtain rfl | hlt := hplc
      · have hlen := (List.getElem?_eq_some_iff.1 h.close.2.1).1
        rw [hcstr chunk (by simp)] at hlen
        refine ⟨pre, chunk, post, i, rfl, fun b hb => ?_, ?_, hnext.1, by omega⟩
        · rw [← hcstr b (mem_append_left _ hb)]
          exact (h.waits b hb).1
        · rw [← hcstr chunk (by simp)]
          exact h.head
      · rw [h.spliced_eq post] at hout
        exact absurd hout.symm (splice_ne token hat hnext hlt)
  · rintro ⟨pre, chunk, post, i, rfl, hpre, hhead, hi, hj⟩
    have h := finds_of_closedInChunk hnul hclosing hsmall hpre hhead hi hj
    rw [h.spliced_eq post, Nat.add_sub_cancel' (by omega)]

theorem output_tagged_chunks :
    ∃ out, filterPage (injectTag sampleToken) (fun _ => 7) 300 [utf8 "<p>", utf8 "<head>", utf8 "x"] = some out ∧
      (out = splice (utf8 "<p><head>x") 9 (injectTag sampleToken) ↔ ClosedInChunk [utf8 "<p>", utf8 "<head>", utf8 "x"] 8) :=
  output_tagged_iff sampleToken [utf8 "<p>", utf8 "<head>", utf8 "x"] (fun _ => 7) (by simp) 300
    (by rw [length_injectTag]; decide) (by decide) 8 (by decide) (by decide)

theorem output_untagged : closing headWord gt [utf8 "<he", utf8 "ad>"].flatten = some 5 ∧
    filterPage (injectTag sampleToken) (fun _ => 65536) 300 [utf8 "<he", utf8 "ad>"] = some (utf8 "<head>") ∧
    utf8 "<head>" ≠ splice [utf8 "<he", utf8 "ad>"].flatten 6 (injectTag sampleToken) := by
  refine ⟨by decide, filterPage_eq (by simp) (by rw [length_injectTag]; decide), ?_⟩
  exact fun h => splice_ne_page sampleToken h.symm

end CloudeLoader.HtmlFilter
