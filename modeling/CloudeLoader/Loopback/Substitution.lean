import CloudeLoader.Lib.Occurrence
import CloudeLoader.Loopback.RegexPool

/-!
# The transforms of a patch (`resource_transformer.cc`)

A patch finds a region of the file and rewrites it with its transforms, one after the other.
-/

namespace CloudeLoader

open ByteMemory Occurrence List Option

structure RE2 where
  ok : CString → Bool
  find : CString → List UInt8 → Option (Nat × Nat)
  globalReplace : CString → CString → List UInt8 → List UInt8 × Nat

def maxFileSize : Nat := 256 * 1024 * 1024

def sizeMax : Nat := 2 ^ 64 - 1

def safeAddSize (a b : Nat) : Option Nat := if a > sizeMax - b then none else some (a + b)

def subU32 (a b : Nat) : Nat := u32 (a + 2 ^ 32 - b)

def int64 (n : Nat) : Int := (n : Int).bmod (2 ^ 64)

def uint64 (z : Int) : Nat := (z % 2 ^ 64).toNat

/-! ### The replacement -/

def placeholder : List UInt8 := [35, 123, 123, 115, 101, 108, 102, 125, 125]

def substitute (name : CString) : List UInt8 :=
  [119, 105, 110, 100, 111, 119, 46, 80, 76, 85, 71, 73, 78, 95, 76, 73, 83, 84, 91, 39] ++ name.1 ++ [39, 93]

/-- What stands before the first `needle`, and what follows it. -/
def strstr (needle hay : List UInt8) : Option (List UInt8 × List UInt8) :=
  (first needle hay).map fun i => (hay.take i, hay.drop (i + needle.length))

def fillSelf (replacement name : CString) : CString :=
  match strstr placeholder replacement.1 with
  | none => replacement
  | some (before, after) => .ofBytes (before ++ substitute name ++ after)

def preprocessReplacement (mallocOk : Bool) (replacement name : CString) : Option CString :=
  if name.length > maxPluginNameLen then none
  else
    match strstr placeholder replacement.1 with
    | none => if mallocOk then some replacement else none
    | some (before, after) =>
      match safeAddSize 22 name.length with
      | none => none
      | some substituteLen =>
        if substituteLen > 8192 then none
        else
          match ((safeAddSize before.length substituteLen).bind (safeAddSize · after.length)).bind (safeAddSize · 1) with
          | none => none
          | some _ => if mallocOk then some (.ofBytes (before ++ substitute name ++ after)) else none

/-! ### The substitution in a region -/

def applyScopedSubstitution (re : RE2) (mallocOk : Bool) (pattern : CString) (input : List UInt8) (inputSize frm til : Nat)
    (replacement : CString) : Option (List UInt8 × Nat) :=
  if re.ok pattern = false then none
  else if frm > til ∨ til > inputSize ∨ inputSize > maxFileSize then none
  else
    let (region, count) := re.globalReplace pattern replacement ((input.drop frm).take (til - frm))
    if count = 0 then none
    else
      let suffixLen := subU32 inputSize (u32 til)
      match (safeAddSize frm region.length).bind (safeAddSize · suffixLen) with
      | none => none
      | some newTotal =>
        if newTotal > maxFileSize then none
        else if mallocOk then some (input.take frm ++ region ++ (input.drop til).take suffixLen, u32 newTotal)
        else none

structure Scoped where
  buffer : List UInt8
  size : Nat
  til : Nat
  deriving DecidableEq

abbrev TransformEntry := Option CString × Option CString

def applyTransform (re : RE2) (mallocOk : Bool) (name : CString) (frm : Nat) (t : TransformEntry) (r : Scoped) : Scoped :=
  match t with
  | (some mtch, some replace) =>
    match preprocessReplacement mallocOk replace name with
    | none => r
    | some processed =>
      if re.ok mtch = false then r
      else
        match applyScopedSubstitution re mallocOk mtch r.buffer r.size frm r.til processed with
        | none => r
        | some (newBuffer, newSize) =>
          let delta := int64 newSize - int64 r.size
          ⟨newBuffer, newSize, uint64 (int64 r.til + delta)⟩
  | _ => r

/-- The loop of `apply_transform_set_scoped` from transform `i` on; `mallocOk i` says whether the allocations made for
transform `i` succeed. -/
def transformLoop (re : RE2) (mallocOk : Nat → Bool) (name : CString) (frm : Nat) : Nat → List TransformEntry → Scoped → Scoped
  | _, [], r => r
  | i, t :: ts, r => transformLoop re mallocOk name frm (i + 1) ts (applyTransform re (mallocOk i) name frm t r)

def applyTransformSetScoped (re : RE2) (mallocOk : Nat → Bool) (name : CString) (transforms : List TransformEntry)
    (buffer : List UInt8) (size frm til : Nat) : List UInt8 × Nat :=
  let r := transformLoop re mallocOk name frm 0 transforms ⟨buffer, size, til⟩
  (r.buffer, r.size)

/-! ### The region -/

/-- What a transform makes of a region with `outside` bytes around it.  It is carried out if there is memory for it, its
pattern compiles and matches, and the file does not become too large. -/
def rewriteRegion (re : RE2) (mallocOk : Bool) (name : CString) (outside : Nat) (t : TransformEntry) (region : List UInt8) :
    List UInt8 :=
  match t with
  | (some mtch, some replace) =>
    let (new, count) := re.globalReplace mtch (fillSelf replace name) region
    if mallocOk ∧ re.ok mtch ∧ count ≠ 0 ∧ outside + new.length ≤ maxFileSize then new else region
  | _ => region

def rewriteRegions (re : RE2) (mallocOk : Nat → Bool) (name : CString) (outside : Nat) :
    Nat → List TransformEntry → List UInt8 → List UInt8
  | _, [], region => region
  | i, t :: ts, region =>
    rewriteRegions re mallocOk name outside (i + 1) ts (rewriteRegion re (mallocOk i) name outside t region)

/-- The buffer consists of `before`, the region and `after`; size and end of the region are right. -/
structure Scoped.Splits (r : Scoped) (before region after : List UInt8) : Prop where
  buffer : r.buffer = before ++ region ++ after
  size : r.size = before.length + region.length + after.length
  til : r.til = before.length + region.length
  le : r.size ≤ maxFileSize

def TransformEntry.Fits (t : TransformEntry) : Prop := ∀ replace ∈ t.2, replace.length < 2 ^ 63

section Substitution

variable {re : RE2} {ok : Bool} {name : CString} {before region after : List UInt8} {r : Scoped} {t : TransformEntry}

theorem safeAddSize_eq {a b} (h : a + b ≤ sizeMax) : safeAddSize a b = some (a + b) := by
  unfold safeAddSize
  rw [if_neg (by omega)]

theorem safeAddSize_eq_some {a b c} (e : safeAddSize a b = some c) : c = a + b := by
  unfold safeAddSize at e
  split at e
  · simp at e
  · exact (some.inj e).symm

theorem length_strstr {needle hay x} (h : strstr needle hay = some x) :
    x.1.length + needle.length + x.2.length = hay.length := by
  obtain ⟨i, hi, rfl⟩ := map_eq_some_iff.1 h
  obtain ⟨a, b, rfl, rfl, -⟩ := exists_append_of_first hi
  simp [Nat.add_assoc]

theorem preprocessReplacement_eq {replacement} (hname : name.length ≤ maxPluginNameLen)
    (hlen : replacement.length < 2 ^ 63) :
    preprocessReplacement ok replacement name = if ok then some (fillSelf replacement name) else none := by
  unfold preprocessReplacement fillSelf
  rw [if_neg (by omega)]
  cases e : strstr placeholder replacement.1 with
  | none => rfl
  | some x =>
    have hx : x.1.length + x.2.length < 2 ^ 63 := by
      have := length_strstr e
      unfold CString.length at hlen
      omega
    have hsml : 22 + name.length ≤ 8192 := by
      unfold maxPluginNameLen at hname
      omega
    have hsum : ((safeAddSize x.1.length (22 + name.length)).bind (safeAddSize · x.2.length)).bind (safeAddSize · 1) =
        some (x.1.length + (22 + name.length) + x.2.length + 1) := by
      rw [safeAddSize_eq (by unfold sizeMax; omega), bind_some, safeAddSize_eq (by unfold sizeMax; omega),
        bind_some, safeAddSize_eq (by unfold sizeMax; omega)]
    simp only [safeAddSize_eq (show 22 + name.length ≤ sizeMax by unfold sizeMax; omega), hsum,
      if_neg (Nat.not_lt.2 hsml)]

theorem Scoped.Splits.suffixLen (h : r.Splits before region after) : subU32 r.size (u32 r.til) = after.length := by
  have hle := h.le
  rw [h.size, maxFileSize] at hle
  rw [h.size, h.til]
  unfold subU32 u32
  omega

theorem Scoped.Splits.region_eq (h : r.Splits before region after) :
    (r.buffer.drop before.length).take (r.til - before.length) = region := by
  rw [h.buffer, h.til, append_assoc, drop_left, Nat.add_sub_cancel_left, take_left]

theorem Scoped.Splits.drop_til (h : r.Splits before region after) : r.buffer.drop r.til = after := by
  rw [h.buffer, h.til, ← length_append, drop_left]

theorem applyScopedSubstitution_eq (ok : Bool) (h : r.Splits before region after) {pattern replacement}
    {new count} (e : re.globalReplace pattern replacement region = (new, count)) :
    applyScopedSubstitution re ok pattern r.buffer r.size before.length r.til replacement =
      if ok ∧ re.ok pattern ∧ count ≠ 0 ∧ before.length + after.length + new.length ≤ maxFileSize then
        some (before ++ new ++ after, before.length + new.length + after.length)
      else none := by
  have hbnd : ¬ (before.length > r.til ∨ r.til > r.size ∨ r.size > maxFileSize) := by
    have hle := h.le
    have htil := h.til
    have hsize := h.size
    omega
  have htake : r.buffer.take before.length = before := by
    rw [h.buffer, append_assoc, take_left]
  unfold applyScopedSubstitution
  rw [if_neg hbnd]
  simp only [h.region_eq, e, h.suffixLen, h.drop_til, htake, take_length]
  by_cases hok : re.ok pattern = false
  · simp [hok]
  rw [if_neg hok]
  by_cases hcnt : count = 0
  · simp [hcnt]
  rw [if_neg hcnt]
  by_cases hmax : before.length + after.length + new.length ≤ maxFileSize
  · have hmax' : before.length + after.length + new.length ≤ 268435456 := hmax
    have hsum : (safeAddSize before.length new.length).bind (safeAddSize · after.length) =
        some (before.length + new.length + after.length) := by
      rw [safeAddSize_eq (by unfold sizeMax; omega), bind_some, safeAddSize_eq (by unfold sizeMax; omega)]
    have hu32 : u32 (before.length + new.length + after.length) = before.length + new.length + after.length :=
      Nat.mod_eq_of_lt (by omega)
    simp only [hsum, hu32]
    rw [if_neg (by omega)]
    simp [hok, hcnt, hmax]
  · rw [if_neg (by simp [hmax])]
    cases hsum : (safeAddSize before.length new.length).bind (safeAddSize · after.length) with
    | none => rfl
    | some total =>
      obtain ⟨x, hx, hx'⟩ := bind_eq_some_iff.1 hsum
      have htlt := safeAddSize_eq_some hx'
      have := safeAddSize_eq_some hx
      exact if_pos (by omega)

theorem int64_of_le {n} (h : n ≤ maxFileSize) : int64 n = n := by
  unfold maxFileSize at h
  exact Int.bmod_eq_of_le (by omega) (by omega)

theorem uint64_shift {til size newSize} (htil : til ≤ maxFileSize) (hnew : newSize ≤ maxFileSize)
    (hsize : size ≤ maxFileSize) (h : size ≤ til + newSize) :
    uint64 (int64 til + (int64 newSize - int64 size)) = til + newSize - size := by
  rw [int64_of_le htil, int64_of_le hnew, int64_of_le hsize]
  unfold uint64
  unfold maxFileSize at htil hnew
  omega

theorem Scoped.Splits.applyTransform (h : r.Splits before region after) (hname : name.length ≤ maxPluginNameLen)
    (ht : t.Fits) :
    (applyTransform re ok name before.length t r).Splits before
      (rewriteRegion re ok name (before.length + after.length) t region) after := by
  unfold CloudeLoader.applyTransform
  split
  next mtch replace =>
    cases e : re.globalReplace mtch (fillSelf replace name) region with
    | mk new count =>
      have hsub := applyScopedSubstitution_eq ok h e
      simp only [rewriteRegion, e]
      rw [preprocessReplacement_eq hname (ht replace rfl)]
      cases ok with
      | false => simpa using h
      | true =>
        simp only [if_true]
        by_cases hok : re.ok mtch = false
        · simpa [hok] using h
        rw [if_neg hok, hsub]
        split
        next heq =>
          rw [if_neg]
          · exact h
          · intro hcond
            simp [hcond] at heq
        next newBuffer newSize heq =>
          have hcond := Classical.byContradiction fun hcond => by rw [if_neg hcond] at heq; simp at heq
          rw [if_pos hcond] at heq
          rw [if_pos (by simpa using hcond)]
          injection heq with heq
          injection heq with hbuf hsize'
          subst hbuf hsize'
          have hmax : before.length + new.length + after.length ≤ maxFileSize := by
            omega
          have hle := h.le
          have hsize := h.size
          have htil := h.til
          refine ⟨rfl, rfl, ?_, hmax⟩
          dsimp only
          rw [uint64_shift (by omega) hmax hle (by omega)]
          omega
  next hnull =>
    have : rewriteRegion re ok name (before.length + after.length) t region = region := by
      unfold rewriteRegion
      split
      · exact absurd rfl (hnull _ _)
      · rfl
    rw [this]
    exact h

theorem Scoped.Splits.transformLoop (h : r.Splits before region after) (re : RE2) (mallocOk : Nat → Bool)
    {ts} (hname : name.length ≤ maxPluginNameLen) (hts : ∀ t ∈ ts, t.Fits) (i : Nat) :
    (transformLoop re mallocOk name before.length i ts r).Splits before
      (rewriteRegions re mallocOk name (before.length + after.length) i ts region) after := by
  induction ts generalizing i r region with
  | nil => exact h
  | cons t ts ih =>
    exact ih (h.applyTransform hname (hts t (mem_cons_self))) (fun t' ht' => hts t' (mem_cons_of_mem _ ht'))
      (i + 1)

end Substitution

theorem Scoped.splits_initial {buffer frm til} (hle : frm ≤ til) (htil : til ≤ buffer.length)
    (hmax : buffer.length ≤ maxFileSize) :
    Scoped.Splits ⟨buffer, buffer.length, til⟩ (buffer.take frm) ((buffer.drop frm).take (til - frm)) (buffer.drop til) := by
  have hdrop : (buffer.drop frm).drop (til - frm) = buffer.drop til := by
    rw [drop_drop, Nat.add_sub_cancel' hle]
  refine ⟨?_, ?_, ?_, hmax⟩
  · rw [append_assoc, ← hdrop, take_append_drop, take_append_drop]
  · simp only [length_take, length_drop]
    omega
  · simp only [length_take, length_drop]
    omega

/-- A patch only edits its region.  Before every transform, and after the last, the buffer consists of the bytes before the
region, the region as the transforms so far have rewritten it, and the bytes after the region; the end of the region and
the size of the buffer are known exactly and stay within bounds. -/
theorem applyTransformSetScoped_region (re : RE2) (mallocOk : Nat → Bool) {name : CString}
    (hname : name.length ≤ maxPluginNameLen) {transforms : List TransformEntry} (hfits : ∀ t ∈ transforms, t.Fits)
    {buffer : List UInt8} {frm til : Nat} (hle : frm ≤ til) (htil : til ≤ buffer.length) (hmax : buffer.length ≤ maxFileSize) :
    (∀ k, let r := transformLoop re mallocOk name frm 0 (transforms.take k) ⟨buffer, buffer.length, til⟩
      let region := rewriteRegions re mallocOk name (frm + (buffer.length - til)) 0 (transforms.take k)
        ((buffer.drop frm).take (til - frm))
      r.buffer = buffer.take frm ++ region ++ buffer.drop til ∧ r.size = r.buffer.length ∧ r.til = frm + region.length ∧
        frm ≤ r.til ∧ r.til ≤ r.size ∧ r.size ≤ maxFileSize) ∧
    (applyTransformSetScoped re mallocOk name transforms buffer buffer.length frm til).1 =
      buffer.take frm ++ rewriteRegions re mallocOk name (frm + (buffer.length - til)) 0 transforms
        ((buffer.drop frm).take (til - frm)) ++ buffer.drop til ∧
    (applyTransformSetScoped re mallocOk name transforms buffer buffer.length frm til).2 =
      (applyTransformSetScoped re mallocOk name transforms buffer buffer.length frm til).1.length := by
  have hfrm : (buffer.take frm).length = frm := by
    rw [length_take]
    omega
  have hspl : ∀ ts, (∀ t ∈ ts, t.Fits) → (transformLoop re mallocOk name frm 0 ts ⟨buffer, buffer.length, til⟩).Splits
      (buffer.take frm) (rewriteRegions re mallocOk name (frm + (buffer.length - til)) 0 ts
        ((buffer.drop frm).take (til - frm))) (buffer.drop til) := by
    intro ts hts
    have h := (Scoped.splits_initial hle htil hmax).transformLoop re mallocOk hname hts 0
    rwa [hfrm, length_drop] at h
  have hsize : ∀ {r : Scoped} {region : List UInt8}, r.Splits (buffer.take frm) region (buffer.drop til) →
      r.size = r.buffer.length := by
    intro r region h
    rw [h.size, h.buffer, length_append, length_append]
  refine ⟨fun k => ?_, (hspl transforms hfits).buffer, hsize (hspl transforms hfits)⟩
  have h := hspl (transforms.take k) fun t ht => hfits t (mem_of_mem_take ht)
  have hend := h.til
  have hall := h.size
  rw [hfrm] at hend hall
  exact ⟨h.buffer, hsize h, hend, by omega, by omega, h.le⟩

/-! ### Literal patterns -/

def replaceLiteral (pattern replacement : List UInt8) : Nat → List UInt8 → List UInt8 × Nat
  | 0, text => (text, 0)
  | fuel + 1, text =>
    match strstr pattern text with
    | none => (text, 0)
    | some (before, after) =>
      let (rest, count) := replaceLiteral pattern replacement fuel after
      (before ++ replacement ++ rest, count + 1)

def literal : RE2 where
  ok pattern := pattern.1 != [40]
  find pattern text := (strstr pattern.1 text).map fun x => (x.1.length, pattern.length)
  globalReplace pattern replacement text := replaceLiteral pattern.1 replacement.1 text.length text

theorem applyTransformSetScoped_region_xaby :
    (applyTransformSetScoped literal (fun _ => true) (.ofBytes [112])
      [(some (.ofBytes [97]), some (.ofBytes [99, 99, 99])), (some (.ofBytes [40]), some (.ofBytes [100])),
        (some (.ofBytes [121]), some (.ofBytes [100])), (none, some (.ofBytes [100]))] [120, 97, 98, 121] 4 1 3).1 =
      [120, 99, 99, 99, 98, 121] :=
  (@applyTransformSetScoped_region literal (fun _ => true) (.ofBytes [112]) (by decide) _ (by
    intro t ht replace hrep
    simp only [mem_cons, not_mem_nil, or_false] at ht
    rcases ht with rfl | rfl | rfl | rfl <;> obtain rfl := some.inj hrep <;> decide)
    [120, 97, 98, 121] 1 3 (by decide) (by decide) (by decide)).2.1.trans (by decide +kernel)

/-! ### Placeholders -/

section Placeholders

variable {replacement name out : CString} {ok : Bool}

theorem preprocessReplacement_some (h : preprocessReplacement ok replacement name = some out) : out = fillSelf replacement name := by
  unfold preprocessReplacement at h
  unfold fillSelf
  split at h
  · cases h
  · cases e : strstr placeholder replacement.1 with
    | none =>
      simp only [e, ite_none_right_eq_some, some.injEq] at h
      exact h.2.symm
    | some x =>
      simp only [e] at h
      split at h
      · cases h
      · split at h
        · cases h
        · split at h
          · cases h
          · simp only [ite_none_right_eq_some, some.injEq] at h
            exact h.2.symm

theorem ofBytes_eq_self {bs} (h : (0 : UInt8) ∉ bs) : (CString.ofBytes bs).1 = bs :=
  takeWhile_eq_self_iff.2 fun b hb => by simpa using fun h0 : b = 0 => h (h0 ▸ hb)

theorem zero_notMem_substitute : (0 : UInt8) ∉ substitute name := by
  simp only [substitute, mem_append, not_or]
  exact ⟨⟨by decide, name.2⟩, by decide⟩

theorem placeholder_not_overlapping {after k} (hpos : 0 < k) (hk : k < placeholder.length) :
    ¬ placeholder <+: (placeholder ++ after).drop k := by
  intro h
  have hfir : ((placeholder ++ after).drop k)[0]? = some 35 := by
    obtain ⟨t, ht⟩ := h
    rw [← ht]
    rfl
  rw [getElem?_drop, Nat.add_zero, getElem?_append_left hk] at hfir
  have hno : ∀ n < placeholder.length, 0 < n → placeholder[n]? ≠ some 35 := by decide
  exact hno k hk hpos hfir

/-- What is made of a replacement has all its placeholders filled in if and only if there is at most one. -/
theorem self_expanded_iff (h : preprocessReplacement ok replacement name = some out) :
    out.1 = replaceAll placeholder (substitute name) 0 replacement.1 ↔
      ∀ i j, placeholder <+: replacement.1.drop i → placeholder <+: replacement.1.drop j → i = j := by
  have hne : placeholder ≠ [] := by decide
  have hlt : placeholder.length < (substitute name).length := by simp [placeholder, substitute]
  obtain rfl := preprocessReplacement_some h
  unfold fillSelf
  rw [strstr]
  cases hfir : first placeholder replacement.1 with
  | none =>
    have hno := first_eq_none hfir
    simp only [map_none, replaceAll_of_forall hno, true_iff]
    intro i j hi
    exact absurd hi (hno i)
  | some k =>
    obtain ⟨a, b, hab, rfl, hmin⟩ := exists_append_of_first hfir
    have hzero : (0 : UInt8) ∉ a ++ substitute name ++ b := by
      have := replacement.2
      rw [hab] at this
      simp only [mem_append, not_or] at this ⊢
      exact ⟨⟨this.1, zero_notMem_substitute⟩, this.2.2⟩
    have hdrop : ∀ n, (a ++ (placeholder ++ b)).drop (a.length + n) = (placeholder ++ b).drop n := by
      intro n
      rw [← drop_drop, drop_left]
    rw [hab] at hmin ⊢
    simp only [map_some, take_left, hdrop, drop_left, ofBytes_eq_self hzero,
      replaceAll_first hne hmin]
    rw [append_assoc, append_cancel_left_eq, append_cancel_left_eq, eq_comm,
      replaceAll_eq_self_iff hne hlt]
    constructor
    · -- an occurrence is neither before the first one, nor overlapping with it, nor behind it
      intro hno
      have hat : ∀ i, placeholder <+: (a ++ (placeholder ++ b)).drop i → i = a.length := by
        intro i hi
        by_contra hi'
        have hge : a.length < i := Nat.lt_of_le_of_ne (Nat.not_lt.1 fun hlt => hmin i hlt hi) (Ne.symm hi')
        rw [show i = a.length + (i - a.length) by omega, hdrop] at hi
        by_cases hin : i - a.length < placeholder.length
        · exact placeholder_not_overlapping (by omega) hin hi
        · refine hno (i - a.length - placeholder.length) ?_
          rwa [show i - a.length = placeholder.length + (i - a.length - placeholder.length) by omega, ← drop_drop,
            drop_left] at hi
      intro i j hi hj
      rw [hat i hi, hat j hj]
    · intro hunq n hn
      have hfir : placeholder <+: (a ++ (placeholder ++ b)).drop (a.length + 0) := by
        rw [hdrop]
        exact prefix_append _ _
      have hoth : placeholder <+: (a ++ (placeholder ++ b)).drop (a.length + (placeholder.length + n)) := by
        rw [hdrop, ← drop_drop]
        exact hn
      have heq := hunq _ _ hfir hoth
      simp [placeholder] at heq

theorem self_expanded_once :
    preprocessReplacement true (.ofBytes ([97] ++ placeholder ++ [98])) (.ofBytes [112]) =
        some (fillSelf (.ofBytes ([97] ++ placeholder ++ [98])) (.ofBytes [112])) ∧
      ∀ i j, placeholder <+: (CString.ofBytes ([97] ++ placeholder ++ [98])).1.drop i →
        placeholder <+: (CString.ofBytes ([97] ++ placeholder ++ [98])).1.drop j → i = j := by
  have h : preprocessReplacement true (.ofBytes ([97] ++ placeholder ++ [98])) (.ofBytes [112]) =
      some (fillSelf (.ofBytes ([97] ++ placeholder ++ [98])) (.ofBytes [112])) := by decide +kernel
  exact ⟨h, (self_expanded_iff h).1 (by decide +kernel)⟩

theorem second_self_not_expanded :
    ∃ out, preprocessReplacement true (.ofBytes (placeholder ++ placeholder)) (.ofBytes [112]) = some out ∧
      out.1 ≠ replaceAll placeholder (substitute (.ofBytes [112])) 0
        (CString.ofBytes (placeholder ++ placeholder)).1 :=
  ⟨.ofBytes (substitute (.ofBytes [112]) ++ placeholder), by decide +kernel, by decide +kernel⟩

end Placeholders

end CloudeLoader
