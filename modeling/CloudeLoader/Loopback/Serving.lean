import CloudeLoader.Loopback.PatchMemory
import CloudeLoader.Loopback.Requests

/-!
# Serving a file (`resource_handler.cc`, `resource_query_parser.cc`, `resource_reader.cc`)

`handle_loopback_request` finds the file of a URL, reads it, and hands it to `find_file_matches`, which gives back either
the buffer it was given or a new one with the patched content.
-/

namespace CloudeLoader.Serving

open Engine (Bytes utf8)
open ByteMemory Alloc PatchMemory Option List

/-- What the request needs besides the patches: the platform with the path that is set there, the files that can be read, and what
can be allocated. -/
structure RequestEnv where
  platform : Requests.Platform
  installed : Option Bytes
  disk : Bytes → Option Bytes
  strdupOk : Bool
  pathOk : Bool
  contentOk : Nat → Bool

def urlpPathFromLb (r : RequestEnv) (url : CString) : Prog (Option (Bytes × List (Option Nat))) :=
  match Requests.urlpPathFromLb r.platform r.installed url with
  | none => pure none
  | some (path, _) => do
    let rel ← malloc r.strdupOk
    if rel = none then pure none
    else do
      let abs ← malloc r.pathOk
      if abs = none then do
        free rel
        pure none
      else pure (some (path, [abs, rel]))

/-- `fread_file`: the content and its size, with the block.  A file without content counts as one that cannot be read; the size is a
`uint32_t`. -/
def freadFile (r : RequestEnv) (path : Bytes) : Prog (Option (Bytes × Nat × Option Nat)) :=
  match r.disk path with
  | none => pure none
  | some [] => pure none
  | some content => do
    let block ← malloc (r.contentOk content.length)
    if block = none then pure none else pure (some (content, u32 content.length, block))

def handleLoopbackRequest (re : RE2) (m : MemEnv) (r : RequestEnv) (s : Arena) (url : CString) (order sorted : List Nat) :
    Prog (Int × Option Bytes) := do
  match ← urlpPathFromLb r url with
  | none => pure (-1, none)
  | some (path, blocks) =>
    match ← freadFile r path with
    | none => do
      freeAll blocks
      pure (-1, none)
    | some (content, size, _) => do
      let out ← PatchMemory.findFileMatches re m s (content.take size) order sorted
      freeAll blocks
      pure (0, some out.2)

structure Readable (r : RequestEnv) (url : CString) (path bytes : Bytes) : Prop where
  found : ∃ rel, Requests.urlpPathFromLb r.platform r.installed url = some (path, rel)
  file : r.disk path = some bytes
  strdup : r.strdupOk = true
  pathBuffer : r.pathOk = true
  content : r.contentOk bytes.length = true

/-- The content is too large to be patched, or one of the steps of the patching fails, or no patch matches. -/
def Unpatched (re : RE2) (env : Env) (s : Arena) (content : Bytes) (order : List Nat) : Prop :=
  content.length > maxFileSize ∨ env.sopenOk = false ∨ CloudeLoader.getFileRegexPool env.reallocOk s = none ∨
    ∃ p, CloudeLoader.getFileRegexPool env.reallocOk s = some p ∧
      (p.fileCount = 0 ∨ re2MultiMatch re env.setOk (p.patterns s) content order = none ∨
        ∃ ids, re2MultiMatch re env.setOk (p.patterns s) content order = some ids ∧
          (ids = [] ∨ CloudeLoader.getTransformFromMatches env.callocOk env.mallocOk s ids = none ∨ env.workingOk = false))

variable {re : RE2} {env : Env} {m : MemEnv} {r : RequestEnv} {s : Arena} {url : CString} {path bytes content : Bytes}
  {order sorted : List Nat} {h : Heap} {D : Prop}

theorem findFileMatches_of_unpatched (hu : Unpatched re env s content order) :
    (CloudeLoader.findFileMatches re env s path content order sorted).2 = content := by
  unfold CloudeLoader.findFileMatches selectPatches
  by_cases hsize : content.length > maxFileSize
  · simp only [if_pos hsize]
  by_cases hopen : env.sopenOk = false
  · simp only [if_neg hsize, if_pos hopen]
  simp only [if_neg hsize, if_neg hopen]
  rcases hu with hlar | hcls | hpool | ⟨p, hpool, hmat⟩
  · exact absurd hlar hsize
  · exact absurd hcls hopen
  · simp only [hpool]
  · simp only [hpool]
    by_cases hzero : p.fileCount = 0
    · simp only [if_pos hzero]
    · simp only [if_neg hzero]
      rcases hmat with hemp | hnone | ⟨ids, hids, hrest⟩
      · exact absurd hemp hzero
      · simp only [hnone]
      · simp only [hids]
        cases ids with
        | nil => rfl
        | cons id ids =>
          have hfail : CloudeLoader.handleFilePatches re env s p (id :: ids) content sorted = none := by
            unfold CloudeLoader.handleFilePatches
            rw [if_neg hsize]
            rcases hrest with hnil | hlkp | hwor
            · cases hnil
            · simp only [hlkp]
            · cases CloudeLoader.getTransformFromMatches env.callocOk env.mallocOk s (id :: ids) with
              | none => rfl
              | some entries => simp [hwor]
          simp only [hfail]

theorem handleLoopbackRequest_spec (hr : Readable r url path bytes) :
    wp (bytes ≠ [] ∧ Tears m s (bytes.take (u32 bytes.length))) (handleLoopbackRequest re m r s url order sorted) (fun out _ =>
      (bytes = [] ∧ out = (-1, none)) ∨
      (bytes ≠ [] ∧ ¬ Tears m s (bytes.take (u32 bytes.length)) ∧ out = (0, some (CloudeLoader.findFileMatches re m.env s path
        (bytes.take (u32 bytes.length)) order sorted).2))) h := by
  obtain ⟨_, hfound⟩ := hr.found
  unfold handleLoopbackRequest urlpPathFromLb
  rw [hfound, hr.strdup, hr.pathBuffer]
  refine wp_bind.2 (wp_bind.2 (wp_malloc owns_nil fun rel h₁ hrel hown₁ => ?_))
  rw [if_neg (ne_none_iff_isSome.2 hrel)]
  refine wp_bind.2 (wp_malloc hown₁ fun abs h₂ habs hown₂ => ?_)
  rw [if_neg (ne_none_iff_isSome.2 habs)]
  refine wp_pure.2 (wp_bind.2 ?_)
  unfold freadFile
  rw [hr.file]
  by_cases hemp : bytes = []
  · subst hemp
    exact wp_bind.2 (wp_freeAll hown₂ fun _ _ => .inl ⟨rfl, rfl⟩)
  · obtain ⟨b, rest, rfl⟩ := exists_cons_of_ne_nil hemp
    dsimp only
    rw [hr.content]
    refine wp_bind.2 (wp_malloc hown₂ fun block h₃ hblc hown₃ => ?_)
    rw [if_neg (ne_none_iff_isSome.2 hblc)]
    refine wp_pure.2 (wp_bind.2 ?_)
    generalize hcon : (b :: rest).take (u32 (b :: rest).length) = content
    obtain ⟨htrs, hno⟩ := @findFileMatches_heap re m s content path order sorted _ h₃ hown₃
    by_cases ht : Tears m s content
    · unfold wp
      rw [htrs ht]
      exact ⟨hemp, ht⟩
    · obtain ⟨h₄, hrun, hown₄⟩ := hno ht
      unfold wp
      rw [hrun]
      exact wp_bind.2 (wp_freeAll hown₄.tail fun _ _ => .inr ⟨hemp, ht, rfl⟩)

theorem handleLoopbackRequest_of_tears (hr : Readable r url path bytes) (hne : bytes ≠ []) (hlt : bytes.length < 2 ^ 32)
    (ht : Tears m s bytes) : handleLoopbackRequest re m r s url order sorted h = none := by
  have hspec := @handleLoopbackRequest_spec re m r s url path bytes order sorted h hr
  rw [u32, Nat.mod_eq_of_lt hlt, take_length] at hspec
  unfold wp at hspec
  split at hspec
  · next hrun => exact hrun
  · rcases hspec with ⟨hemp, -⟩ | ⟨-, hno, -⟩
    · exact absurd hemp hne
    · exact absurd ht hno

/-- A file that can be read and is not patched is served as it is if and only if it is not empty, its size is a `uint32_t`, and the
arrays of the pool are not torn. -/
theorem serves_original_iff (hr : Readable r url path bytes)
    (hu : Unpatched re m.env s (bytes.take (u32 bytes.length)) order) :
    (∃ h, handleLoopbackRequest re m r s url order sorted Heap.empty = some ((0, some bytes), h)) ↔
      bytes ≠ [] ∧ bytes.length < 2 ^ 32 ∧ ¬ Tears m s bytes := by
  have hspec := @handleLoopbackRequest_spec re m r s url path bytes order sorted Heap.empty hr
  unfold wp at hspec
  rw [findFileMatches_of_unpatched hu] at hspec
  have hsml : bytes.length < 2 ^ 32 → bytes.take (u32 bytes.length) = bytes := fun hlt => by
    rw [u32, Nat.mod_eq_of_lt hlt, take_length]
  constructor
  · rintro ⟨h, hrun⟩
    rw [hrun] at hspec
    rcases hspec with ⟨-, hout⟩ | ⟨hne, hno, hout⟩
    · cases hout
    · have heq : bytes = bytes.take (u32 bytes.length) := by simpa using hout
      have hlt : bytes.length < 2 ^ 32 := by
        have hlen := congrArg length heq
        rw [length_take] at hlen
        unfold u32 at hlen
        omega
      exact ⟨hne, hlt, hsml hlt ▸ hno⟩
  · rintro ⟨hne, hlt, hno⟩
    rw [hsml hlt] at hspec
    split at hspec
    · exact absurd hspec.2 hno
    · next out h hrun =>
      rcases hspec with ⟨hemp, -⟩ | ⟨-, -, hout⟩
      · exact absurd hemp hne
      · exact ⟨h, hout ▸ hrun⟩

/-! ### One file -/

def scriptUrl : CString := .ofBytes (utf8 "https://steamloopback.host/a.js?v=1")

def scriptPath : Bytes := utf8 "/home/.steam/steam/steamui/a.js"

def scriptEnv : RequestEnv := ⟨.linux, none, fun path => if path = scriptPath then some [97] else none, true, true, fun _ => true⟩

theorem readable_script : Readable scriptEnv scriptUrl scriptPath [97] :=
  ⟨⟨utf8 "/a.js", by decide +kernel⟩, by decide +kernel, rfl, rfl, rfl⟩

def shortOfMemory (sopenOk : Bool) : MemEnv where
  env := { Env.plenty with
    sopenOk := sopenOk
    reallocOk := poolOk fun c => if c = 32 then (.moves, .fails) else (.moves, .moves) }
  pools c := if c = 32 then (.moves, .fails) else (.moves, .moves)
  lookup := (true, true)
  arrays _ := (true, true)
  reallocOk := rfl
  callocOk := rfl
  mallocOk _ := rfl

theorem serves_original_closed :
    ∃ h, handleLoopbackRequest literal (shortOfMemory false) scriptEnv (Client.start fun _ => 0).arena scriptUrl [] []
      Heap.empty = some ((0, some [97]), h) :=
  (serves_original_iff readable_script (.inr (.inl rfl))).2
    ⟨cons_ne_nil _ _, by decide, fun ht => absurd ht.2.1 (by decide)⟩

def seventeenPatches : Arena :=
  ((Client.start fun _ => 0).run
    (.hashmapAddKey (.ofBytes [112]) :: replicate 17 (.patchlistAdd 0 (.ofBytes [97]) (.ofBytes [98])))).arena

theorem torn_pool_not_served :
    Readable scriptEnv scriptUrl scriptPath [97] ∧
      CloudeLoader.getFileRegexPool (shortOfMemory true).env.reallocOk seventeenPatches = none ∧
      handleLoopbackRequest literal (shortOfMemory true) scriptEnv seventeenPatches scriptUrl [] [] Heap.empty = none := by
  have hgrw : Grown (shortOfMemory true).pools 16 := .grow .zero rfl (by decide)
  have htorn : TornAt (shortOfMemory true).pools 16 := ⟨by decide, 32, rfl, .inl ⟨by decide, by decide⟩⟩
  have hsize : poolSize seventeenPatches = 17 := by decide +kernel
  have htrs : Tears (shortOfMemory true) seventeenPatches [97] :=
    ⟨by decide, rfl, 16, by rw [hsize]; decide, hgrw, htorn⟩
  exact ⟨readable_script, isNone_iff_eq_none.1 (by decide +kernel),
    handleLoopbackRequest_of_tears readable_script (cons_ne_nil _ _) (by decide) htrs⟩

end CloudeLoader.Serving
