import CloudeLoader.Loopback.FileMatches

/-!
# Which patches are applied, and in which order

The file pattern of a patch is meant to select files by their path, but `find_file_matches` matches it against the content
of the file.  `selectPatches_path_iff` says when this makes no difference.
-/

namespace CloudeLoader

open ByteMemory Arena SortedFold Loops List Option

/-! ### The selection -/

/-- `find_file_matches` gets as far as to match the patterns of the pool `p`. -/
structure Reaches (re : RE2) (env : Env) (s : Arena) (content : List UInt8) (p : Pools) : Prop where
  size : content.length ≤ maxFileSize
  sopen : env.sopenOk = true
  pool : getFileRegexPool env.reallocOk s = some p
  count : s.items.length ≤ maxPatternCount
  compile : ∀ x ∈ s.items, re.ok x.file = true
  set : env.setOk = true

section Selection

variable {re : RE2} {env : Env} {s : Arena} {content : List UInt8} {p : Pools} {order sorted ids : List Nat}

theorem any_patterns_eq (e : getFileRegexPool env.reallocOk s = some p) :
    (p.patterns s).any (fun pattern => !pattern.any re.ok) = s.items.any fun x => !re.ok x.file := by
  rw [patterns_eq e, List.any_map]
  rfl

theorem Reaches.re2MultiMatch_eq (h : Reaches re env s content p) (hc : Choices re s p content order sorted)
    (hne : s.items ≠ []) : re2MultiMatch re env.setOk (p.patterns s) content order = some order := by
  have hlen : (p.patterns s).length = s.items.length := by rw [patterns_eq h.pool, length_map]
  have hpos : s.items.length ≠ 0 := fun h0 => hne (length_eq_zero_iff.1 h0)
  have hcom : ¬ (s.items.any fun x => !re.ok x.file) = true := by
    simpa using h.compile
  have hle : order.length ≤ s.items.length := by
    rw [hc.matched.length_eq, matchingIds_eq h.pool]
    exact Nat.le_trans (length_filter_le ..) (by rw [length_range])
  have hran : ¬ (order.any fun id => decide (id ≥ s.items.length)) = true := by
    simpa using hc.lt_length h.pool
  unfold re2MultiMatch
  rw [hlen, any_patterns_eq h.pool, if_neg (Nat.not_lt.2 h.size), if_neg hpos, if_neg (Nat.not_lt.2 h.count),
    if_neg hcom, if_neg (by simp [h.set]), if_neg (Nat.not_lt.2 (Nat.le_trans hle h.count)), if_neg hran]

theorem selectPatches_ok (e : selectPatches re env s content order = .ok (p, ids)) :
    Reaches re env s content p ∧ ids = order := by
  unfold selectPatches at e
  split at e
  · simp at e
  split at e
  · simp at e
  split at e
  · simp at e
  next hsize hopen _ q hpool =>
    split at e
    · simp at e
    next hcnt =>
      split at e
      · simp at e
      · simp at e
      next ids' _ hmat =>
        obtain ⟨rfl, rfl⟩ : q = p ∧ ids' = ids := by simpa using e
        have hlen : (q.patterns s).length = s.items.length := by rw [patterns_eq hpool, length_map]
        unfold re2MultiMatch at hmat
        rw [hlen, any_patterns_eq hpool, ← fileCount_eq hpool, if_neg hsize, if_neg hcnt, fileCount_eq hpool] at hmat
        split at hmat
        · simp at hmat
        split at hmat
        · simp at hmat
        split at hmat
        · simp at hmat
        split at hmat
        · simp at hmat
        split at hmat
        · simp at hmat
        next hle hcom hset _ _ =>
          refine ⟨⟨Nat.not_lt.1 hsize, by simpa using hopen, hpool, Nat.not_lt.1 hle, ?_, by simpa using hset⟩, ?_⟩
          · simpa using hcom
          · exact (Option.some.inj hmat).symm

theorem Reaches.selectPatches_eq (h : Reaches re env s content p) (hc : Choices re s p content order sorted)
    (hne : order ≠ []) : selectPatches re env s content order = .ok (p, order) := by
  have hitm : s.items ≠ [] := by
    obtain ⟨id, hid⟩ := exists_mem_of_ne_nil _ hne
    have := hc.lt_length h.pool id hid
    exact ne_nil_of_length_pos (by omega)
  have hcnt : p.fileCount ≠ 0 := by
    rw [fileCount_eq h.pool]
    exact fun h0 => hitm (length_eq_zero_iff.1 h0)
  unfold selectPatches
  rw [if_neg (Nat.not_lt.2 h.size), if_neg (by simp [h.sopen])]
  simp only [h.pool, if_neg hcnt, h.re2MultiMatch_eq hc hitm]

end Selection

/-- When only patches are considered whose pattern matches the path, and the file is served as it is if there is none: it is
so for exactly those files for which every pattern that matches the content also matches the path. -/
theorem selectPatches_path_iff (re : RE2) (env : Env) (s : Arena) (path content : List UInt8) (order sorted : List Nat)
    (hc : ∀ p, getFileRegexPool env.reallocOk s = some p → Choices re s p content order sorted) :
    ((∀ p ids, selectPatches re env s content order = .ok (p, ids) →
        ∀ id ∈ ids, ∀ x, s.items[id]? = some x → re.isMatch x.file path = true) ∧
      ((∀ x ∈ s.items, re.isMatch x.file path = false) →
        (findFileMatches re env s path content order sorted).2 = content)) ↔
    ∀ p, Reaches re env s content p → ∀ x ∈ s.items, re.isMatch x.file content = true → re.isMatch x.file path = true := by
  constructor
  · rintro ⟨hsel, -⟩ p hp x hx hmat
    obtain ⟨id, hid⟩ := getElem?_of_mem hx
    have hlt := (List.getElem?_eq_some_iff.1 hid).1
    have hmem : id ∈ order := by
      refine (hc p hp.pool).matched.symm.subset ?_
      rw [matchingIds_eq hp.pool]
      exact mem_filter.2 ⟨mem_range.2 hlt, by simp [hid, hmat]⟩
    exact hsel p order (hp.selectPatches_eq (hc p hp.pool) (ne_nil_of_mem hmem)) id hmem x hid
  · intro h
    have hsel : ∀ p ids, selectPatches re env s content order = .ok (p, ids) →
        ∀ id ∈ ids, ∀ x, s.items[id]? = some x → re.isMatch x.file path = true := by
      intro p ids e id hid x hx
      obtain ⟨hp, rfl⟩ := selectPatches_ok e
      refine h p hp x (mem_of_getElem? hx) ?_
      have hmem := (hc p hp.pool).matched.subset hid
      rw [matchingIds_eq hp.pool] at hmem
      have hany := (mem_filter.1 hmem).2
      rwa [hx] at hany
    refine ⟨hsel, fun hnone => ?_⟩
    unfold findFileMatches
    split
    · rfl
    · rename_i p ids e
      -- nothing is handed on: a match would have a pattern that matches the path
      obtain ⟨hp, rfl⟩ := selectPatches_ok e
      have hnil : ids = [] := by
        refine eq_nil_iff_forall_not_mem.2 fun id hid => ?_
        have hlt := (hc p hp.pool).lt_length hp.pool id hid
        have hx := getElem?_eq_getElem hlt
        have := hnone _ (mem_of_getElem? hx)
        rw [hsel p ids e id hid _ hx] at this
        simp at this
      subst hnil
      have hsor : sorted = [] := by
        have := (hc p hp.pool).perm.length_eq
        exact length_eq_zero_iff.1 (by simpa using this)
      subst hsor
      unfold handleFilePatches
      split
      · rfl
      · rename_i out hout
        split at hout
        · simp at hout
        · split at hout
          · simp at hout
          · split at hout
            · exact (Option.some.inj hout).symm
            · simp at hout

def singlePatch : Arena :=
  ((Client.start fun _ => 0).run [.hashmapAddKey (.ofBytes [112]), .patchlistAdd 0 (.ofBytes [97]) (.ofBytes [98]),
    .patchAddTransform 0 (.ofBytes [98]) (.ofBytes [99])]).arena

theorem singlePatch_pool : (getFileRegexPool (fun _ => true) singlePatch).isSome = true := by decide +kernel

theorem singlePatch_choices {p : Pools} (e : getFileRegexPool (fun _ => true) singlePatch = some p) :
    Choices literal singlePatch p [97, 98] [0] [0] :=
  choices_of_items e (by decide +kernel) (by decide) (by decide +kernel)

theorem selectPatches_path_iff_singlePatch :
    (∃ p, selectPatches literal .plenty singlePatch [97, 98] [0] = .ok (p, [0])) ∧
      ∀ p ids, selectPatches literal .plenty singlePatch [97, 98] [0] = .ok (p, ids) →
        ∀ id ∈ ids, ∀ x, singlePatch.items[id]? = some x → literal.isMatch x.file [97] = true := by
  obtain ⟨p, hp⟩ := isSome_iff_exists.1 singlePatch_pool
  have hrch : Reaches literal .plenty singlePatch [97, 98] p :=
    ⟨by decide, rfl, hp, by decide +kernel, by decide +kernel, rfl⟩
  refine ⟨⟨p, hrch.selectPatches_eq (singlePatch_choices hp) (by simp)⟩, ?_⟩
  refine ((selectPatches_path_iff literal .plenty singlePatch [97] [97, 98] [0] [0] fun _ => singlePatch_choices).2 ?_).1
  have hall : ∀ x ∈ singlePatch.items, literal.isMatch x.file [97] = true := by decide +kernel
  exact fun _ _ x hx _ => hall x hx

theorem singlePatch_otherPath :
    (∃ p, getFileRegexPool (fun _ => true) singlePatch = some p ∧ Choices literal singlePatch p [97, 98] [0] [0]) ∧
      (∀ x ∈ singlePatch.items, literal.isMatch x.file [120] = false) ∧
      findFileMatches literal .plenty singlePatch [120] [97, 98] [0] [0] = (0, [97, 99]) := by
  obtain ⟨p, hp⟩ := isSome_iff_exists.1 singlePatch_pool
  exact ⟨⟨p, hp, singlePatch_choices hp⟩, by decide +kernel, by decide +kernel⟩

/-! ### The order -/

/-- The order in which the patches should be applied: by the names of the plugins, and for each plugin as declared. -/
def declaredOrder (xs : List Item) : List Item := xs.insertionSort fun x y => nameKey x.name ≤ nameKey y.name

theorem declaredOrder_perm (xs : List Item) : (declaredOrder xs).Perm xs := perm_insertionSort _ xs

theorem declaredOrder_byName (xs : List Item) : ByName (declaredOrder xs) := pairwise_insertionSort _ xs

def Item.Commute (re : RE2) (x y : Item) : Prop :=
  ∀ buffer : List UInt8, buffer.length ≤ maxFileSize →
    y.apply re (fun _ => true) (x.apply re (fun _ => true) buffer) =
      x.apply re (fun _ => true) (y.apply re (fun _ => true) buffer)

/-- If the selected patches of one plugin commute, the result does not depend on what is chosen: it is that of the declared
order. -/
theorem handleFilePatches_declared {re : RE2} {s : Arena} {reallocOk : Nat → Bool} {p : Pools}
    (e : getFileRegexPool reallocOk s = some p) {content : List UInt8} {order sorted : List Nat}
    (hc : Choices re s p content order sorted)
    (hcomm : ∀ x ∈ s.selected re content, ∀ y ∈ s.selected re content, x.name = y.name → x.Commute re y) :
    handleFilePatches re .plenty s p order content sorted =
      if content.length > maxFileSize then none
      else some (Item.applyAll re (declaredOrder (s.selected re content)) content) := by
  split
  · rename_i hmax
    unfold handleFilePatches
    rw [if_pos hmax]
  · rename_i hmax
    have hmax' : content.length ≤ maxFileSize := Nat.not_lt.1 hmax
    have hperm := hc.chosen_perm e
    have hmem : ∀ x ∈ s.chosen order sorted, x ∈ s.selected re content := fun x hx => hperm.subset hx
    rw [handleFilePatches_eq e (hc.lt_length e) hmax']
    refine congrArg some (foldl_eq_of_ordered (hperm.trans (declaredOrder_perm _).symm) (hc.chosen_byName e)
      (declaredOrder_byName _) (Item.preserves_apply fun x hx => ?_) (fun x hx y hy hkey => ?_) hmax')
    · exact fits_of_mem_items e (mem_of_mem_filter (hmem x hx))
    · refine hcomm x (hmem x hx) y (hmem y hy) (Subtype.ext ?_)
      exact map_injective_iff.2 (fun a b h => UInt8.toNat_inj.1 h) hkey

def twoPatches (find : CString) : Arena :=
  ((Client.start fun _ => 0).run [.hashmapAddKey (.ofBytes [112]), .patchlistAdd 0 (.ofBytes [97]) (.ofBytes [98]),
    .patchAddTransform 0 (.ofBytes [98]) (.ofBytes [99]), .patchlistAdd 0 (.ofBytes [97]) find,
    .patchAddTransform 1 (.ofBytes [99]) (.ofBytes [100])]).arena

theorem handleFilePatches_declared_twoPatches :
    ∃ p, getFileRegexPool (fun _ => true) (twoPatches (.ofBytes [])) = some p ∧
      handleFilePatches literal .plenty (twoPatches (.ofBytes [])) p [1, 0] [97, 98] [0, 1] = some [97, 99] := by
  obtain ⟨p, hp⟩ := isSome_iff_exists.1
    (by decide +kernel : (getFileRegexPool (fun _ => true) (twoPatches (.ofBytes []))).isSome = true)
  have hc : Choices literal (twoPatches (.ofBytes [])) p [97, 98] [1, 0] [0, 1] :=
    choices_of_items hp (by decide +kernel) (by decide) (by decide +kernel)
  refine ⟨p, hp, (handleFilePatches_declared hp hc fun x hx y hy _ buffer _ => ?_).trans (by decide +kernel)⟩
  have hitm : ∀ x ∈ (twoPatches (.ofBytes [])).items, x.find.1 = [] ∨ some x = (twoPatches (.ofBytes [])).items[0]? := by
    decide +kernel
  have hid : ∀ z : Item, z.find.1 = [] → ∀ b, z.apply literal (fun _ => true) b = b := fun z hz b => by
    rw [Item.apply, applyPatch, if_pos hz]
  rcases hitm x (mem_of_mem_filter hx) with hx | hx
  · rw [hid x hx, hid x hx]
  · rcases hitm y (mem_of_mem_filter hy) with hy | hy
    · rw [hid y hy, hid y hy]
    · rw [Option.some.inj (hx.trans hy.symm)]

theorem twoPatches_orders_differ :
    ∃ p, getFileRegexPool (fun _ => true) (twoPatches (.ofBytes [99])) = some p ∧
      Choices literal (twoPatches (.ofBytes [99])) p [97, 98] [0, 1] [0, 1] ∧
      Choices literal (twoPatches (.ofBytes [99])) p [97, 98] [1, 0] [0, 1] ∧
      handleFilePatches literal .plenty (twoPatches (.ofBytes [99])) p [0, 1] [97, 98] [0, 1] = some [97, 100] ∧
      handleFilePatches literal .plenty (twoPatches (.ofBytes [99])) p [1, 0] [97, 98] [0, 1] = some [97, 99] := by
  obtain ⟨p, hp⟩ := isSome_iff_exists.1
    (by decide +kernel : (getFileRegexPool (fun _ => true) (twoPatches (.ofBytes [99]))).isSome = true)
  have hc : Choices literal (twoPatches (.ofBytes [99])) p [97, 98] [0, 1] [0, 1] :=
    choices_of_items hp (by decide +kernel) (by decide) (by decide +kernel)
  have hc' : Choices literal (twoPatches (.ofBytes [99])) p [97, 98] [1, 0] [0, 1] :=
    choices_of_items hp (by decide +kernel) (by decide) (by decide +kernel)
  refine ⟨p, hp, hc, hc', ?_, ?_⟩
  · rw [handleFilePatches_eq hp (hc.lt_length hp) (by decide)]
    decide +kernel
  · rw [handleFilePatches_eq hp (hc'.lt_length hp) (by decide)]
    decide +kernel

end CloudeLoader
