import CloudeLoader.Lib.SortedFold
import CloudeLoader.Loopback.Substitution

/-!
# Patching a file (`resource_transformer.cc`)

`find_file_matches` gathers the file patterns of all patches, matches them in one go, and hands the patches whose pattern
matched to `handle_file_patches`, which applies them one after the other.
-/

namespace CloudeLoader

open ByteMemory Arena SortedFold Loops List Option

/-- What may fail outside of the program: opening the arena, allocations, and the compilation of the set of patterns. -/
structure Env where
  sopenOk : Bool
  reallocOk : Nat → Bool
  setOk : Bool
  callocOk : Bool
  mallocOk : Nat → Bool
  workingOk : Bool
  transformOk : Nat → Nat → Bool

def Env.plenty : Env := ⟨true, fun _ => true, true, true, fun _ => true, true, fun _ _ => true⟩

def RE2.isMatch (re : RE2) (pattern : CString) (text : List UInt8) : Bool := (re.find pattern text).isSome

def strcmpLt : List UInt8 → List UInt8 → Bool
  | _, [] => false
  | [], _ :: _ => true
  | a :: as, b :: bs => if a = b then strcmpLt as bs else decide (a < b)

/-! ### Matching -/

def Pools.patterns (p : Pools) (s : Arena) : List (Option CString) :=
  (List.range p.fileCount).map fun i => (p.filePool i).map s.cstrAt

def matchingIds (re : RE2) (patterns : List (Option CString)) (text : List UInt8) : List Nat :=
  (List.range patterns.length).filter fun i => (patterns[i]?.join).any (re.isMatch · text)

def re2MultiMatch (re : RE2) (setOk : Bool) (patterns : List (Option CString)) (text : List UInt8) (order : List Nat) :
    Option (List Nat) :=
  if text.length > maxFileSize then none
  else if patterns.length = 0 then some []
  else if patterns.length > maxPatternCount then none
  else if patterns.any fun pattern => !pattern.any re.ok then none
  else if setOk = false then none
  else if order.length > maxPatternCount then none
  else if order.any fun id => decide (id ≥ patterns.length) then none
  else some order

def re2FindInBuffer (re : RE2) (pattern : CString) (buffer : List UInt8) (bufferSize : Nat) : Option (Nat × Nat) :=
  if bufferSize > maxFileSize then none
  else if re.ok pattern = false then none
  else
    match re.find pattern buffer with
    | none => none
    | some (offset, length) =>
      if offset > bufferSize then none
      else
        match safeAddSize offset length with
        | none => some (offset, bufferSize)
        | some til => some (offset, if til > bufferSize then bufferSize else til)

/-! ### Applying the patches -/

def transformEntries (s : Arena) (t : TransformData) : List TransformEntry :=
  (List.range t.count.toNat).map fun i => (t.mtches[i]?.map s.cstrAt, t.replaces[i]?.map s.cstrAt)

def Pools.nameOf (p : Pools) (s : Arena) (ids : List Nat) (k : Nat) : Option CString :=
  ((ids[k]?).bind p.pluginMap).map fun m => s.cstrAt m.pluginName

def nameLess (names : Nat → Option CString) (a b : Nat) : Bool :=
  match names a, names b with
  | none, _ => false
  | some _, none => true
  | some na, some nb => strcmpLt na.1 nb.1

/-- One patch, in the loop of `handle_file_patches`: the find pattern is searched in the working buffer, and the transforms
are applied where it matched. -/
def applyPatch (re : RE2) (mallocOk : Nat → Bool) (name find : CString) (transforms : List TransformEntry)
    (working : List UInt8 × Nat) : List UInt8 × Nat :=
  if find.1 = [] then working
  else
    match re2FindInBuffer re find working.1 working.2 with
    | none => working
    | some (frm, til) => applyTransformSetScoped re mallocOk name transforms working.1 working.2 frm til

def patchBuffer (re : RE2) (transformOk : Nat → Nat → Bool) (s : Arena) (p : Pools) (ids : List Nat)
    (entries : List (Option Nat × TransformData)) (working : List UInt8 × Nat) (si : Nat) : List UInt8 × Nat :=
  match entries[si]?, p.nameOf s ids si with
  | some (some findOff, t), some name =>
    applyPatch re (transformOk si) name (s.cstrAt findOff) (transformEntries s t) working
  | _, _ => working

def handleFilePatches (re : RE2) (env : Env) (s : Arena) (p : Pools) (ids : List Nat) (content : List UInt8)
    (sorted : List Nat) : Option (List UInt8) :=
  if content.length > maxFileSize then none
  else
    match getTransformFromMatches env.callocOk env.mallocOk s ids with
    | none => none
    | some entries =>
      if env.workingOk then
        some (sorted.foldl (patchBuffer re env.transformOk s p ids entries) (content, content.length)).1
      else none

def selectPatches (re : RE2) (env : Env) (s : Arena) (content : List UInt8) (order : List Nat) :
    Except Int (Pools × List Nat) :=
  if content.length > maxFileSize then .error (-1)
  else if env.sopenOk = false then .error (-1)
  else
    match getFileRegexPool env.reallocOk s with
    | none => .error (-1)
    | some p =>
      if p.fileCount = 0 then .error 0
      else
        match re2MultiMatch re env.setOk (p.patterns s) content order with
        | none => .error (-1)
        | some [] => .error 0
        | some ids => .ok (p, ids)

def findFileMatches (re : RE2) (env : Env) (s : Arena) (_localPath content : List UInt8) (order sorted : List Nat) :
    Int × List UInt8 :=
  match selectPatches re env s content order with
  | .error ret => (ret, content)
  | .ok (p, ids) =>
    match handleFilePatches re env s p ids content sorted with
    | none => (-1, content)
    | some out => (0, out)

/-- What the library may choose: an order of the matching patterns, and an order of the matches that is sorted. -/
structure Choices (re : RE2) (s : Arena) (p : Pools) (content : List UInt8) (order sorted : List Nat) : Prop where
  matched : order.Perm (matchingIds re (p.patterns s) content)
  perm : sorted.Perm (List.range order.length)
  ordered : sorted.Pairwise fun a b => nameLess (p.nameOf s order) b a = false

/-! ### The patches without the arena -/

structure Item where
  name : CString
  file : CString
  find : CString
  transforms : List TransformEntry
  deriving DecidableEq

def Arena.slotItem (s : Arena) (x : Nat × Nat) : Item where
  name := s.cstrAt (s.keyOff x.1)
  file := s.cstrAt (s.slotPatch x).fileOff
  find := s.cstrAt (s.slotPatch x).findOff
  transforms := transformEntries s (transformData s (s.slotPatch x))

def Arena.items (s : Arena) : List Item := s.slots.map s.slotItem

namespace Item

def apply (re : RE2) (mallocOk : Nat → Bool) (x : Item) (buffer : List UInt8) : List UInt8 :=
  (applyPatch re mallocOk x.name x.find x.transforms (buffer, buffer.length)).1

/-- The name and the replacements have lengths the substitution can deal with. -/
structure Fits (x : Item) : Prop where
  name : x.name.length ≤ maxPluginNameLen
  transforms : ∀ t ∈ x.transforms, t.Fits

end Item

def nameKey (name : CString) : List Nat := name.1.map UInt8.toNat

theorem strcmpLt_iff {a b} : strcmpLt a b = true ↔ a.map UInt8.toNat < b.map UInt8.toNat := by
  induction a generalizing b with
  | nil => cases b <;> simp [strcmpLt]
  | cons x a ih =>
    cases b with
    | nil => simp [strcmpLt]
    | cons y b =>
      unfold strcmpLt
      rw [map_cons, map_cons, cons_lt_cons_iff]
      by_cases h : x = y
      · simp [h, ih]
      · have hne : x.toNat ≠ y.toNat := fun e => h (UInt8.toNat_inj.1 e)
        simp [h, hne, UInt8.lt_iff_toNat_lt]

section Strings

variable {m : Mem} {s : Arena}

theorem length_cstrBytes_le (m : Mem) (fuel a : Nat) : (cstrBytes m fuel a).length ≤ fuel := by
  induction fuel generalizing a with
  | zero => simp [cstrBytes]
  | succ fuel ih =>
    unfold cstrBytes
    split
    · simp
    · have := ih (a + 1)
      rw [length_cons]
      omega

theorem length_cstrBytes_le_of_lt {fuel a} (h : (cstrBytes m fuel a).length < fuel) (fuel' : Nat) :
    (cstrBytes m fuel' a).length ≤ (cstrBytes m fuel a).length := by
  induction fuel generalizing a fuel' with
  | zero => simp at h
  | succ fuel ih =>
    cases fuel' with
    | zero => simp [cstrBytes]
    | succ fuel' =>
      unfold cstrBytes at h ⊢
      split
      · simp
      · rename_i h0
        rw [if_neg h0, length_cons] at h
        have := ih (a := a + 1) (by omega) fuel'
        rw [length_cons, length_cons]
        omega

theorem length_cstrAt_lt (s : Arena) (off : Nat) : (s.cstrAt off).length < 2 ^ 63 := by
  have hle : (s.cstrAt off).length ≤ s.size := length_cstrBytes_le _ _ _
  have hlt : s.size < 2 ^ 32 := load32_lt _ _
  omega

theorem transformEntries_fits (s : Arena) (d : TransformData) : ∀ t ∈ transformEntries s d, t.Fits := by
  intro t ht replace hrep
  obtain ⟨i, -, rfl⟩ := mem_map.1 ht
  obtain ⟨off, -, rfl⟩ := map_eq_some_iff.1 hrep
  exact length_cstrAt_lt s off

end Strings

section Items

variable {s : Arena} {reallocOk : Nat → Bool} {p : Pools}

section

variable (e : getFileRegexPool reallocOk s = some p)

include e

theorem getFileRegexPool_name_le {j} (hj : j < s.count) :
    (s.cstrAt (s.keyOff j)).length ≤ maxPluginNameLen := by
  unfold getFileRegexPool at e
  split at e
  · simp at e
  · obtain ⟨t, t', ht⟩ := foldlM_each e (mem_range.2 hj)
    split at ht
    · simp at ht
    · rename_i hlen
      rw [strnlen] at hlen
      have hlt : (cstrBytes s.mem (maxPluginNameLen + 1) (s.keyOff j)).length < maxPluginNameLen + 1 := by omega
      have hle := length_cstrBytes_le_of_lt hlt s.size
      show (cstrBytes s.mem s.size (s.keyOff j)).length ≤ maxPluginNameLen
      omega

theorem Arena.fits_of_mem_items {x} (hx : x ∈ s.items) : x.Fits := by
  obtain ⟨y, hy, rfl⟩ := mem_map.1 hx
  constructor
  · dsimp only [slotItem]
    exact getFileRegexPool_name_le e (mem_slots.1 hy).1
  · dsimp only [slotItem]
    exact transformEntries_fits s _

theorem fileCount_eq : p.fileCount = s.items.length := by
  rw [(getFileRegexPool_filled e).count, Arena.items, length_map, length_map]

theorem patterns_eq : p.patterns s = s.items.map fun x => some x.file := by
  refine ext_getElem? fun i => ?_
  rw [Pools.patterns, getElem?_map, getElem?_map, Arena.items, getElem?_map]
  by_cases hi : i < p.fileCount
  · rw [fileCount_eq e, Arena.items, length_map] at hi
    have hslot : (s.slots.map (slotFile s))[i]? = some (slotFile s s.slots[i]) := by
      rw [getElem?_map, getElem?_eq_getElem hi]
      rfl
    have hlen : i < s.items.length := by simpa [Arena.items] using hi
    rw [fileCount_eq e, getElem?_range hlen, getElem?_eq_getElem hi, map_some,
      ((getFileRegexPool_filled e).slot i _ _ hslot).1]
    rfl
  · rw [getElem?_eq_none (by rw [length_range]; omega), getElem?_eq_none]
    · rfl
    · rw [fileCount_eq e, Arena.items, length_map] at hi
      omega

theorem nameOf_eq {ids} (hids : ∀ id ∈ ids, id < s.items.length)
    (k : Nat) : p.nameOf s ids k = ((ids[k]?).bind (s.items[·]?)).map Item.name := by
  unfold Pools.nameOf
  cases hk : ids[k]? with
  | none => rfl
  | some id =>
    have hid := hids id (mem_of_getElem? hk)
    have hid' : id < s.slots.length := by simpa [Arena.items] using hid
    have hslot : (s.slots.map (slotFile s))[id]? = some (slotFile s s.slots[id]) := by
      rw [getElem?_map, getElem?_eq_getElem hid']
      rfl
    rw [bind_some, bind_some, ((getFileRegexPool_filled e).slot id _ _ hslot).2, Arena.items,
      getElem?_map, getElem?_eq_getElem hid']
    rfl

theorem findPatchById_items (id : Nat) :
    findPatchById s id = (s.slots.map s.slotAddr)[id]? := by
  refine findPatchById_eq ?_ id
  have hfill := getFileRegexPool_filled e
  have hle := hfill.le
  have hmax := hfill.max
  have hcnt := fileCount_eq e
  rw [Arena.items, length_map] at hcnt
  unfold maxPoolCapacity at hmax
  unfold uint32Max
  omega

end

end Items

section Buffers

variable {re : RE2} {mallocOk : Nat → Bool} {x : Item} {buffer : List UInt8} {frm til : Nat}

theorem re2FindInBuffer_le {pattern size} (e : re2FindInBuffer re pattern buffer size = some (frm, til)) :
    frm ≤ til ∧ til ≤ size := by
  unfold re2FindInBuffer at e
  split at e
  · simp at e
  split at e
  · simp at e
  split at e
  · simp at e
  next offset length _ =>
    split at e
    · simp at e
    split at e
    · obtain ⟨rfl, rfl⟩ : offset = frm ∧ size = til := by simpa using e
      omega
    next n hn =>
      have := safeAddSize_eq_some hn
      obtain ⟨rfl, htil⟩ : offset = frm ∧ (if n > size then size else n) = til := by simpa using e
      split at htil <;> omega

theorem applyTransformSetScoped_size (re : RE2) (mallocOk : Nat → Bool) (hx : x.Fits) (hmax : buffer.length ≤ maxFileSize)
    (hle : frm ≤ til) (htil : til ≤ buffer.length) :
    ∃ buffer' : List UInt8, buffer'.length ≤ maxFileSize ∧
      applyTransformSetScoped re mallocOk x.name x.transforms buffer buffer.length frm til = (buffer', buffer'.length) := by
  have hfrm : (buffer.take frm).length = frm := by
    rw [length_take]
    omega
  have h := (Scoped.splits_initial hle htil hmax).transformLoop re mallocOk hx.name hx.transforms 0
  rw [hfrm] at h
  unfold applyTransformSetScoped
  generalize transformLoop re mallocOk x.name frm 0 x.transforms ⟨buffer, buffer.length, til⟩ = r at h
  have hsize : r.size = r.buffer.length := by
    rw [h.size, h.buffer, length_append, length_append]
  exact ⟨r.buffer, hsize ▸ h.le, by simp only [hsize]⟩

namespace Item

theorem applyPatch_eq (re : RE2) (mallocOk : Nat → Bool) (hx : x.Fits) (hmax : buffer.length ≤ maxFileSize) :
    (x.apply re mallocOk buffer).length ≤ maxFileSize ∧
      applyPatch re mallocOk x.name x.find x.transforms (buffer, buffer.length) =
        (x.apply re mallocOk buffer, (x.apply re mallocOk buffer).length) := by
  unfold apply applyPatch
  by_cases hfind : x.find.1 = []
  · simp only [if_pos hfind]
    exact ⟨hmax, trivial⟩
  simp only [if_neg hfind]
  cases e : re2FindInBuffer re x.find buffer buffer.length with
  | none => exact ⟨hmax, rfl⟩
  | some r =>
    obtain ⟨hle, htil⟩ := re2FindInBuffer_le e
    obtain ⟨buffer', hbnd, hsize⟩ := applyTransformSetScoped_size re mallocOk hx hmax hle htil
    simp only [hsize]
    exact ⟨hbnd, trivial⟩

def applyAll (re : RE2) (xs : List Item) (buffer : List UInt8) : List UInt8 :=
  xs.foldl (fun buffer x => x.apply re (fun _ => true) buffer) buffer

theorem preserves_apply {xs} (hxs : ∀ x ∈ xs, x.Fits) :
    Preserves (fun buffer => buffer.length ≤ maxFileSize) (fun buffer x => apply re (fun _ => true) x buffer) xs :=
  fun x hx _ hmax => (applyPatch_eq re _ (hxs x hx) hmax).1

end Item

end Buffers

def Arena.chosen (s : Arena) (ids sorted : List Nat) : List Item := (sorted.filterMap (ids[·]?)).filterMap (s.items[·]?)

section Handle

variable {re : RE2} {s : Arena} {reallocOk : Nat → Bool} {p : Pools} {ids sorted : List Nat} {content : List UInt8}

theorem patchBuffer_eq (e : getFileRegexPool reallocOk s = some p) (hids : ∀ id ∈ ids, id < s.items.length)
    {entries callocOk} {mallocOk : Nat → Bool}
    (hent : getTransformFromMatches callocOk mallocOk s ids = some entries) {transformOk : Nat → Nat → Bool} {si id}
    {x} (hid : ids[si]? = some id) (hx : s.items[id]? = some x) {buffer} (hmax : buffer.length ≤ maxFileSize) :
    patchBuffer re transformOk s p ids entries (buffer, buffer.length) si =
      (x.apply re (transformOk si) buffer, (x.apply re (transformOk si) buffer).length) := by
  have hfits := fits_of_mem_items e (mem_of_getElem? hx)
  obtain ⟨y, hy, rfl⟩ : ∃ y, s.slots[id]? = some y ∧ s.slotItem y = x := by
    simpa [Arena.items, getElem?_map] using hx
  have hpat : findPatchById s id = some (s.slotAddr y) := by
    rw [findPatchById_items e, getElem?_map, hy, map_some]
  have hentr := getTransformFromMatches_getElem? hent hid hpat
  have hname : p.nameOf s ids si = some (s.slotItem y).name := by
    rw [nameOf_eq e hids, hid, bind_some, hx]
    rfl
  have hfind : s.cstrAt (patchAt s.mem (s.slotAddr y)).findOff = (s.slotItem y).find := by
    rw [slotItem, slotPatch]
  have htrn : transformEntries s (transformData s (patchAt s.mem (s.slotAddr y))) = (s.slotItem y).transforms := by
    rw [slotItem, slotPatch]
  unfold patchBuffer
  simp only [hentr, hname, hfind, htrn]
  exact (Item.applyPatch_eq re (transformOk si) hfits hmax).2

theorem handleFilePatches_eq (e : getFileRegexPool reallocOk s = some p) (hids : ∀ id ∈ ids, id < s.items.length)
    (hmax : content.length ≤ maxFileSize) :
    handleFilePatches re .plenty s p ids content sorted = some (Item.applyAll re (s.chosen ids sorted) content) := by
  obtain ⟨entries, hent⟩ : ∃ entries, getTransformFromMatches true (fun _ => true) s ids = some entries := by
    refine isSome_iff_exists.1 ?_
    refine mapM_isSome fun y _ => ?_
    cases h : findPatchById s y.1 <;> simp [h, populateTransform]
  have hfold : ∀ buffer : List UInt8, buffer.length ≤ maxFileSize →
      (sorted.foldl (patchBuffer re (fun _ _ => true) s p ids entries) (buffer, buffer.length)).1 =
        Item.applyAll re (s.chosen ids sorted) buffer := by
    induction sorted with
    | nil => exact fun _ _ => rfl
    | cons si sorted ih =>
      intro buffer hbuf
      cases hid : ids[si]? with
      | none =>
        have hskip : patchBuffer re (fun _ _ => true) s p ids entries (buffer, buffer.length) si = (buffer, buffer.length) := by
          unfold patchBuffer
          rw [nameOf_eq e hids, hid]
          split
          · rename_i h
            simp at h
          · rfl
        rw [foldl_cons, hskip, ih buffer hbuf, Arena.chosen, Arena.chosen, filterMap_cons_none hid]
      | some id =>
        have hlt := hids id (mem_of_getElem? hid)
        have hx := getElem?_eq_getElem hlt
        have hbuf' := (Item.applyPatch_eq re (fun _ => true)
          (fits_of_mem_items e (mem_of_getElem? hx)) hbuf).1
        rw [foldl_cons, patchBuffer_eq e hids hent hid hx hbuf, ih _ hbuf', Arena.chosen, Arena.chosen,
          filterMap_cons_some hid, filterMap_cons_some hx]
        rfl
  unfold handleFilePatches
  rw [if_neg (Nat.not_lt.2 hmax)]
  show (match getTransformFromMatches true (fun _ => true) s ids with
    | none => none
    | some entries => if true = true then
        some (sorted.foldl (patchBuffer re (fun _ _ => true) s p ids entries) (content, content.length)).1 else none) = _
  rw [hent]
  simp only [if_true, hfold content hmax]

end Handle

/-! ### What may be chosen -/

def Arena.selected (re : RE2) (s : Arena) (content : List UInt8) : List Item :=
  s.items.filter fun x => re.isMatch x.file content

abbrev ByName (xs : List Item) : Prop := Ordered (fun x => nameKey x.name) xs

section Choices

variable {re : RE2} {s : Arena} {reallocOk : Nat → Bool} {p : Pools} {order sorted : List Nat} {content : List UInt8}

theorem nameLess_eq_false {names : Nat → Option CString} {a b na nb} (ha : names a = some na)
    (hb : names b = some nb) : nameLess names b a = false ↔ nameKey na ≤ nameKey nb := by
  unfold nameLess
  rw [ha, hb, ← Bool.not_eq_true]
  rw [strcmpLt_iff]
  exact not_lt

variable (e : getFileRegexPool reallocOk s = some p)

include e

theorem matchingIds_eq : matchingIds re (p.patterns s) content =
    (List.range s.items.length).filter fun i => (s.items[i]?).any fun x => re.isMatch x.file content := by
  unfold matchingIds
  rw [patterns_eq e, length_map]
  refine filter_congr fun i _ => ?_
  rw [getElem?_map]
  cases s.items[i]? <;> rfl

theorem Choices.lt_length (h : Choices re s p content order sorted) :
    ∀ id ∈ order, id < s.items.length := by
  intro id hid
  have := h.matched.subset hid
  rw [matchingIds_eq e] at this
  exact mem_range.1 (mem_of_mem_filter this)

theorem Choices.chosen_perm (h : Choices re s p content order sorted) :
    (s.chosen order sorted).Perm (s.selected re content) := by
  have hsor : (sorted.filterMap (order[·]?)).Perm order := by
    have := h.perm.filterMap (order[·]?)
    rwa [filterMap_getElem?_range] at this
  have hord := h.matched
  rw [matchingIds_eq e] at hord
  have := (hsor.trans hord).filterMap (s.items[·]?)
  rwa [filterMap_getElem?_filter] at this

theorem Choices.chosen_byName (h : Choices re s p content order sorted) :
    ByName (s.chosen order sorted) := by
  unfold ByName Ordered Arena.chosen
  rw [pairwise_filterMap, pairwise_filterMap]
  refine h.ordered.imp fun {a b} hless ia ha ib hb x hx y hy => ?_
  have hname : ∀ {k i : Nat} {z : Item}, order[k]? = some i → s.items[i]? = some z →
      p.nameOf s order k = some z.name := by
    intro k i z hk hz
    rw [nameOf_eq e (h.lt_length e), hk, bind_some, hz]
    rfl
  exact (nameLess_eq_false (hname ha hx) (hname hb hy)).1 hless

theorem choices_of_items
    (hmat : order.Perm
      ((List.range s.items.length).filter fun i => (s.items[i]?).any fun x => re.isMatch x.file content))
    (hperm : sorted.Perm (List.range order.length))
    (hord : sorted.Pairwise fun a b =>
      nameLess (fun k => ((order[k]?).bind (s.items[·]?)).map Item.name) b a = false) :
    Choices re s p content order sorted := by
  have hids : ∀ id ∈ order, id < s.items.length := fun id hid =>
    mem_range.1 (mem_of_mem_filter (hmat.subset hid))
  refine ⟨by rwa [matchingIds_eq e], hperm, hord.imp fun {a b} h => ?_⟩
  rw [show p.nameOf s order = fun k => ((order[k]?).bind (s.items[·]?)).map Item.name from funext (nameOf_eq e hids)]
  exact h

end Choices

end CloudeLoader
