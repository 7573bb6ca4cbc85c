import CloudeLoader.Loopback.Selection

/-!
# Conflicts between plugins (`resource_transformer.cc`)

Before the patches are applied, `detect_and_log_conflicts` looks for the first match of each find pattern in the file as
it is, and logs the pairs of patches of different plugins whose matches overlap.
-/

namespace CloudeLoader

open ByteMemory Arena List Option

variable {k : Nat}

/-- A match of `re2_multi_match`: the number of the pattern, and where it matched. -/
structure Bound where
  id : Nat
  frm : Nat
  til : Nat
  deriving DecidableEq

structure Conflict where
  pair : Nat × Nat
  plugins : CString × CString
  regions : (Nat × Nat) × (Nat × Nat)
  winner : CString
  loser : CString
  deriving DecidableEq

def matchRange (re : RE2) (pattern : CString) (text : List UInt8) : Nat × Nat :=
  match re.find pattern text with
  | none => (0, 0)
  | some (offset, length) =>
    if offset > text.length then (0, 0)
    else
      match safeAddSize offset length with
      | none => (offset, text.length)
      | some endOffset => (offset, if endOffset ≤ text.length then endOffset else text.length)

def boundOf (re : RE2) (finds : List (Option CString)) (content : List UInt8) (id : Nat) : Bound :=
  let range := (finds[id]?.join).elim (0, 0) (matchRange re · content)
  ⟨id, range.1, range.2⟩

def originalBounds (re : RE2) (setOk : Bool) (finds : List (Option CString)) (content : List UInt8) (order : List Nat) :
    Option (List Bound) :=
  (re2MultiMatch re setOk finds content order).map fun ids => ids.map (boundOf re finds content)

def pairs {α : Type} : List α → List (α × α)
  | [] => []
  | x :: l => l.map (x, ·) ++ pairs l

def conflictOf (names : Nat → Option CString) (findCount matchCount : Nat) (x y : Bound) : Option Conflict :=
  if x.id ≥ findCount ∨ y.id ≥ findCount then none
  else if x.id ≥ matchCount ∨ y.id ≥ matchCount then none
  else
    match names x.id, names y.id with
    | some pluginI, some pluginJ =>
      if pluginI = pluginJ then none
      else if x.frm < y.til ∧ y.frm < x.til then
        some {
          pair := (x.id, y.id)
          plugins := (pluginI, pluginJ)
          regions := ((x.frm, x.til), (y.frm, y.til))
          winner := if strcmpLt pluginI.1 pluginJ.1 then pluginI else pluginJ
          loser := if strcmpLt pluginI.1 pluginJ.1 then pluginJ else pluginI }
      else none
    | _, _ => none

def detectAndLogConflicts (re : RE2) (setOk : Bool) (finds : List (Option CString)) (s : Arena) (p : Pools) (ids : List Nat)
    (content : List UInt8) (order : List Nat) : List Conflict :=
  match originalBounds re setOk finds content order with
  | none => []
  | some bounds => (pairs bounds).filterMap fun x => conflictOf (p.nameOf s ids) finds.length ids.length x.1 x.2

def findPatterns (s : Arena) (entries : List (Option Nat × TransformData)) : List (Option CString) :=
  entries.map fun e => e.1.map s.cstrAt

/-! ### What the log has to say -/

def RE2.InFirst (re : RE2) (pattern : CString) (text : List UInt8) (k : Nat) : Prop :=
  ∃ offset length, re.find pattern text = some (offset, length) ∧ offset ≤ k ∧ k < offset + length

/-- The first match of `f` is empty, and inside of that of `g`. -/
def RE2.EmptyInside (re : RE2) (f g : CString) (text : List UInt8) : Prop :=
  ∃ k offset length, re.find f text = some (k, 0) ∧ re.find g text = some (offset, length) ∧ offset < k ∧ k < offset + length

def RE2.Within (re : RE2) : Prop :=
  ∀ pattern text offset length, re.find pattern text = some (offset, length) → offset + length ≤ text.length

def Logged (log : List Conflict) (i j : Nat) : Prop := ∃ c ∈ log, c.pair = (i, j) ∨ c.pair = (j, i)

/-- A pair is logged if and only if the plugins are different and the first matches have a byte in common.  The plugins that are
named are those of the pair, and all matches of the one that is said to come first are applied before those of the other. -/
structure Exact (re : RE2) (finds : List (Option CString)) (names : Nat → Option CString) (content : List UInt8)
    (sorted : List Nat) (log : List Conflict) : Prop where
  pairs : ∀ i j f g n m, i ≠ j → finds[i]? = some (some f) → finds[j]? = some (some g) → names i = some n → names j = some m →
    (Logged log i j ↔ n ≠ m ∧ ∃ k, re.InFirst f content k ∧ re.InFirst g content k)
  named : ∀ c ∈ log, names c.pair.1 = some c.plugins.1 ∧ names c.pair.2 = some c.plugins.2 ∧
    ((c.winner, c.loser) = c.plugins ∨ (c.loser, c.winner) = c.plugins)
  winner : ∀ c ∈ log, ∀ a b, a ∈ sorted → b ∈ sorted → names a = some c.winner → names b = some c.loser →
    sorted.idxOf a < sorted.idxOf b

/-- Match `k` is of the plugin `name`, and its find pattern `f` has its first match at `a`, with length `l`. -/
structure MatchedAt (re : RE2) (finds : List (Option CString)) (names : Nat → Option CString) (content : List UInt8) (k : Nat)
    (name f : CString) (a l : Nat) : Prop where
  find : finds[k]? = some (some f)
  name : names k = some name
  range : re.find f content = some (a, l)

def conflict (i j : Nat) (name name' : CString) (a l b m : Nat) : Conflict where
  pair := (i, j)
  plugins := (name, name')
  regions := ((a, a + l), (b, b + m))
  winner := if strcmpLt name.1 name'.1 then name else name'
  loser := if strcmpLt name.1 name'.1 then name' else name

/-- The patches that `find_file_matches` hands to `handle_file_patches` for a file, when no allocation fails on the way, their
find patterns compile, and `order` and `sorted` are what the libraries choose. -/
structure Detection (re : RE2) (env : Env) (s : Arena) (p : Pools) (ids : List Nat)
    (entries : List (Option Nat × TransformData)) (content : List UInt8) (sorted order : List Nat) : Prop where
  within : re.Within
  selected : selectPatches re env s content ids = .ok (p, ids)
  choices : Choices re s p content ids sorted
  entries_eq : getTransformFromMatches env.callocOk env.mallocOk s ids = some entries
  accepted : ∀ f, some f ∈ findPatterns s entries → re.ok f = true
  matched : order.Perm (matchingIds re (findPatterns s entries) content)

/-! ### Pairs and intervals -/

section Pairs

variable {α : Type} {x y : α} {l : List α}

theorem mem_pairs (hl : l.Nodup) (h : (x, y) ∈ pairs l) : x ∈ l ∧ y ∈ l ∧ x ≠ y := by
  induction l with
  | nil => cases h
  | cons z l ih =>
    obtain ⟨hz, hl⟩ := nodup_cons.1 hl
    rw [pairs, List.mem_append, List.mem_map] at h
    rcases h with ⟨w, hw, hpair⟩ | h
    · obtain ⟨rfl, rfl⟩ := Prod.mk.inj hpair
      exact ⟨mem_cons_self, mem_cons_of_mem _ hw, fun hzw => hz (hzw ▸ hw)⟩
    · obtain ⟨hx, hy, hne⟩ := ih hl h
      exact ⟨mem_cons_of_mem _ hx, mem_cons_of_mem _ hy, hne⟩

theorem mem_pairs_or (hx : x ∈ l) (hy : y ∈ l) (hne : x ≠ y) : (x, y) ∈ pairs l ∨ (y, x) ∈ pairs l := by
  induction l with
  | nil => cases hx
  | cons z l ih =>
    simp only [pairs, List.mem_append, List.mem_map, Prod.mk.injEq]
    rcases mem_cons.1 hx with rfl | hx'
    · rcases mem_cons.1 hy with rfl | hy'
      · exact absurd rfl hne
      · exact .inl (.inl ⟨y, hy', rfl, rfl⟩)
    · rcases mem_cons.1 hy with rfl | hy'
      · exact .inr (.inl ⟨x, hx', rfl, rfl⟩)
      · rcases ih hx' hy' with h | h
        · exact .inl (.inr h)
        · exact .inr (.inr h)

theorem pairs_map {β : Type} (f : α → β) : pairs (l.map f) = (pairs l).map (Prod.map f f) := by
  induction l with
  | nil => rfl
  | cons z l ih =>
    simp only [List.map_cons, pairs, ih, List.map_append, List.map_map]
    rfl

end Pairs

section Intervals

variable {re : RE2} {f g : CString} {text : List UInt8} {a b l m : Nat}

theorem matchRange_eq (hre : re.Within) (hsize : text.length ≤ maxFileSize) (h : re.find f text = some (a, l)) :
    matchRange re f text = (a, a + l) := by
  have hle := hre f text a l h
  have hmax : a + l ≤ sizeMax := by
    unfold maxFileSize at hsize
    unfold sizeMax
    omega
  simp only [matchRange, h, safeAddSize_eq hmax, if_pos hle]
  rw [if_neg (by omega)]

theorem overlap_iff (hf : re.find f text = some (a, l)) (hg : re.find g text = some (b, m)) :
    a < b + m ∧ b < a + l ↔
      (∃ k, re.InFirst f text k ∧ re.InFirst g text k) ∨ re.EmptyInside f g text ∨ re.EmptyInside g f text := by
  constructor
  · rintro ⟨hab, hba⟩
    by_cases hl : l = 0
    · subst hl
      exact .inr (.inl ⟨a, b, m, hf, hg, by omega, hab⟩)
    by_cases hm : m = 0
    · subst hm
      exact .inr (.inr ⟨b, a, l, hg, hf, by omega, hba⟩)
    · exact .inl ⟨max a b, ⟨a, l, hf, by omega, by omega⟩, ⟨b, m, hg, by omega, by omega⟩⟩
  · rintro (⟨k, ⟨a', l', hf', ha, hl⟩, ⟨b', m', hg', hb, hm⟩⟩ | ⟨k, b', m', hf', hg', hb, hm⟩ | ⟨k, a', l', hg', hf', ha, hl⟩)
    all_goals
      obtain ⟨rfl, rfl⟩ := Prod.mk.inj (some.inj (hf.symm.trans hf'))
      obtain ⟨rfl, rfl⟩ := Prod.mk.inj (some.inj (hg.symm.trans hg'))
      omega

theorem overlap_symm : (∃ k, re.InFirst f text k ∧ re.InFirst g text k) ∨ re.EmptyInside f g text ∨ re.EmptyInside g f text ↔
    (∃ k, re.InFirst g text k ∧ re.InFirst f text k) ∨ re.EmptyInside g f text ∨ re.EmptyInside f g text := by
  simp only [and_comm, or_comm]

theorem exists_find_of_overlap (h : (∃ k, re.InFirst f text k ∧ re.InFirst g text k) ∨ re.EmptyInside f g text ∨
    re.EmptyInside g f text) : (∃ a l, re.find f text = some (a, l)) ∧ ∃ b m, re.find g text = some (b, m) := by
  rcases h with ⟨k, ⟨a, l, hf, -⟩, ⟨b, m, hg, -⟩⟩ | ⟨k, b, m, hf, hg, -⟩ | ⟨k, a, l, hg, hf, -⟩
  · exact ⟨⟨a, l, hf⟩, ⟨b, m, hg⟩⟩
  · exact ⟨⟨k, 0, hf⟩, ⟨b, m, hg⟩⟩
  · exact ⟨⟨a, l, hf⟩, ⟨k, 0, hg⟩⟩

theorem not_inFirst_of_emptyInside (h : re.EmptyInside f g text) : ¬ re.InFirst f text k := by
  rintro ⟨a, l, hf, ha, hl⟩
  obtain ⟨k', b, m, hf', -⟩ := h
  obtain ⟨rfl, rfl⟩ := Prod.mk.inj (some.inj (hf.symm.trans hf'))
  omega

end Intervals

/-! ### The matches -/

section Detection

variable {re : RE2} {env : Env} {s : Arena} {p : Pools} {ids sorted order : List Nat}
  {entries : List (Option Nat × TransformData)} {content : List UInt8}

section Detection

variable (h : Detection re env s p ids entries content sorted order)

include h

theorem length_findPatterns :
    (findPatterns s entries).length = ids.length := by
  have hent := h.entries_eq
  unfold getTransformFromMatches at hent
  split at hent
  · rw [findPatterns, length_map, Loops.length_of_mapM hent, length_zipIdx]
  · cases hent

theorem Detection.item (hk : k < ids.length) :
    ∃ x : Item, p.nameOf s ids k = some x.name ∧ (findPatterns s entries)[k]? = some (some x.find) := by
  have hpool := (selectPatches_ok h.selected).1.pool
  have hids := h.choices.lt_length hpool
  have hid : ids[k]? = some ids[k] := getElem?_eq_getElem hk
  have hlt := hids _ (getElem_mem hk)
  have hx : s.items[ids[k]]? = some s.items[ids[k]] := getElem?_eq_getElem hlt
  obtain ⟨y, hy, hslot⟩ : ∃ y, s.slots[ids[k]]? = some y ∧ s.slotItem y = s.items[ids[k]] := by
    simpa [Arena.items, getElem?_map] using hx
  have hpat : findPatchById s ids[k] = some (s.slotAddr y) := by
    rw [findPatchById_items hpool, getElem?_map, hy, map_some]
  refine ⟨s.items[ids[k]], ?_, ?_⟩
  · rw [nameOf_eq hpool hids, hid, bind_some, hx, map_some]
  · rw [findPatterns, getElem?_map, getTransformFromMatches_getElem? h.entries_eq hid hpat, ← hslot]
    rfl

theorem Detection.mem_order :
    k ∈ order ↔ ∃ f range, (findPatterns s entries)[k]? = some (some f) ∧ re.find f content = some range := by
  rw [h.matched.mem_iff, matchingIds, mem_filter, mem_range]
  constructor
  · rintro ⟨hk, hany⟩
    obtain ⟨x, -, hfind⟩ := h.item (length_findPatterns h ▸ hk)
    rw [hfind] at hany
    obtain ⟨range, hran⟩ := isSome_iff_exists.1 (show (re.find x.find content).isSome = true from hany)
    exact ⟨x.find, range, hfind, hran⟩
  · rintro ⟨f, range, hf, hran⟩
    refine ⟨(List.getElem?_eq_some_iff.1 hf).1, ?_⟩
    rw [hf]
    show (re.find f content).isSome = true
    rw [hran]
    rfl

theorem Detection.nodup : order.Nodup :=
  h.matched.nodup_iff.2 (nodup_range.filter _)

theorem Detection.originalBounds_eq :
    originalBounds re true (findPatterns s entries) content order =
      some (order.map (boundOf re (findPatterns s entries) content)) := by
  obtain ⟨hrch, -⟩ := selectPatches_ok h.selected
  have hlen := length_findPatterns h
  have hids : ids.length ≤ maxPatternCount := by
    have hle : ids.length ≤ s.items.length := by
      rw [h.choices.matched.length_eq, matchingIds_eq hrch.pool]
      exact Nat.le_trans (length_filter_le ..) (by rw [length_range])
    exact Nat.le_trans hle hrch.count
  have hord : order.length ≤ (findPatterns s entries).length := by
    rw [h.matched.length_eq]
    exact Nat.le_trans (length_filter_le ..) (by rw [length_range])
  have hacc : ¬ ((findPatterns s entries).any fun pattern => !pattern.any re.ok) = true := by
    simp only [List.any_eq_true, Bool.not_eq_true', not_exists, not_and, Bool.not_eq_false]
    intro f hf
    obtain ⟨k, hk, rfl⟩ := mem_iff_getElem.1 hf
    obtain ⟨x, -, hfind⟩ := h.item (hlen ▸ hk)
    rw [List.getElem?_eq_getElem hk, some.injEq] at hfind
    rw [hfind]
    exact h.accepted x.find (hfind ▸ hf)
  have hran : ¬ (order.any fun id => decide (id ≥ (findPatterns s entries).length)) = true := by
    simp only [List.any_eq_true, decide_eq_true_eq, not_exists, not_and, Nat.not_le]
    intro id hid
    obtain ⟨f, -, hf, -⟩ := h.mem_order.1 hid
    exact (List.getElem?_eq_some_iff.1 hf).1
  have hmat : re2MultiMatch re true (findPatterns s entries) content order = some order := by
    unfold re2MultiMatch
    rw [if_neg (Nat.not_lt.2 hrch.size)]
    by_cases hzero : (findPatterns s entries).length = 0
    · have hnil : order = [] := length_eq_zero_iff.1 (by omega)
      rw [if_pos hzero, hnil]
    · rw [if_neg hzero, if_neg (by omega), if_neg hacc, if_neg (by decide), if_neg (by omega), if_neg hran]
  rw [originalBounds, hmat, map_some]

theorem Detection.exists_matchedAt (hk : k ∈ order) :
    ∃ name f a l, MatchedAt re (findPatterns s entries) (p.nameOf s ids) content k name f a l := by
  obtain ⟨f, ⟨a, l⟩, hf, hran⟩ := h.mem_order.1 hk
  obtain ⟨x, hname, -⟩ := h.item (length_findPatterns h ▸ (List.getElem?_eq_some_iff.1 hf).1)
  exact ⟨x.name, f, a, l, hf, hname, hran⟩

theorem Detection.conflictOf_eq {i j a b l m}
    {f g name name'} (hi : MatchedAt re (findPatterns s entries) (p.nameOf s ids) content i name f a l)
    (hj : MatchedAt re (findPatterns s entries) (p.nameOf s ids) content j name' g b m) :
    conflictOf (p.nameOf s ids) (findPatterns s entries).length ids.length (boundOf re (findPatterns s entries) content i)
        (boundOf re (findPatterns s entries) content j) =
      if name = name' then none else if a < b + m ∧ b < a + l then some (conflict i j name name' a l b m) else none := by
  have hsize := (selectPatches_ok h.selected).1.size
  have hlt := (List.getElem?_eq_some_iff.1 hi.find).1
  have hlt' := (List.getElem?_eq_some_iff.1 hj.find).1
  have hlen := length_findPatterns h
  unfold conflictOf
  rw [if_neg (by simp only [boundOf]; omega), if_neg (by simp only [boundOf]; omega)]
  simp only [boundOf, hi.find, hj.find, hi.name, hj.name, join_some, elim_some,
    matchRange_eq h.within hsize hi.range, matchRange_eq h.within hsize hj.range, conflict]

theorem Detection.mem_log {c} : c ∈ detectAndLogConflicts re true (findPatterns s entries) s p ids content order ↔
      ∃ i j name name' f g a l b m, (i, j) ∈ pairs order ∧
        MatchedAt re (findPatterns s entries) (p.nameOf s ids) content i name f a l ∧
        MatchedAt re (findPatterns s entries) (p.nameOf s ids) content j name' g b m ∧
        name ≠ name' ∧ (a < b + m ∧ b < a + l) ∧ conflict i j name name' a l b m = c := by
  simp only [detectAndLogConflicts, h.originalBounds_eq, pairs_map, List.mem_filterMap, List.mem_map, Prod.exists]
  constructor
  · rintro ⟨x, y, ⟨i, j, hpair, hxy⟩, hc⟩
    obtain ⟨rfl, rfl⟩ := Prod.mk.inj hxy
    obtain ⟨hi, hj, -⟩ := mem_pairs h.nodup hpair
    obtain ⟨name, f, a, l, hi⟩ := h.exists_matchedAt hi
    obtain ⟨name', g, b, m, hj⟩ := h.exists_matchedAt hj
    rw [h.conflictOf_eq hi hj] at hc
    by_cases hname : name = name'
    · rw [if_pos hname] at hc
      cases hc
    · rw [if_neg hname, ite_none_right_eq_some, some.injEq] at hc
      exact ⟨i, j, name, name', f, g, a, l, b, m, hpair, hi, hj, hname, hc.1, hc.2⟩
  · rintro ⟨i, j, name, name', f, g, a, l, b, m, hpair, hi, hj, hname, hover, rfl⟩
    refine ⟨_, _, ⟨i, j, hpair, rfl⟩, ?_⟩
    rw [h.conflictOf_eq hi hj, if_neg hname, if_pos hover]

theorem Detection.logged_iff {i j f g n m}
    (hij : i ≠ j) (hf : (findPatterns s entries)[i]? = some (some f)) (hg : (findPatterns s entries)[j]? = some (some g))
    (hn : p.nameOf s ids i = some n) (hm : p.nameOf s ids j = some m) :
    Logged (detectAndLogConflicts re true (findPatterns s entries) s p ids content order) i j ↔
      n ≠ m ∧ ((∃ k, re.InFirst f content k ∧ re.InFirst g content k) ∨ re.EmptyInside f g content ∨
        re.EmptyInside g f content) := by
  have huniq : ∀ {k : Nat} {x y x' y' : CString} {a l : Nat}, (findPatterns s entries)[k]? = some (some y) →
      p.nameOf s ids k = some x → MatchedAt re (findPatterns s entries) (p.nameOf s ids) content k x' y' a l →
      x' = x ∧ y' = y := by
    intro k x y x' y' a l hy hx hk
    exact ⟨some.inj (hk.name.symm.trans hx), some.inj (some.inj (hk.find.symm.trans hy))⟩
  simp only [Logged, h.mem_log]
  constructor
  · rintro ⟨c, ⟨i', j', name, name', f', g', a, l, b, m', -, hi, hj, hne, hover, rfl⟩, hpair⟩
    have hover := (overlap_iff hi.range hj.range).1 hover
    rcases hpair with hpair | hpair
    · obtain ⟨rfl, rfl⟩ := Prod.mk.inj hpair
      obtain ⟨rfl, rfl⟩ := huniq hf hn hi
      obtain ⟨rfl, rfl⟩ := huniq hg hm hj
      exact ⟨hne, hover⟩
    · obtain ⟨rfl, rfl⟩ := Prod.mk.inj hpair
      obtain ⟨rfl, rfl⟩ := huniq hg hm hi
      obtain ⟨rfl, rfl⟩ := huniq hf hn hj
      exact ⟨hne.symm, overlap_symm.1 hover⟩
  · rintro ⟨hne, hover⟩
    obtain ⟨⟨a, l, hfind⟩, ⟨b, m', hfind'⟩⟩ := exists_find_of_overlap hover
    have hi : MatchedAt re (findPatterns s entries) (p.nameOf s ids) content i n f a l := ⟨hf, hn, hfind⟩
    have hj : MatchedAt re (findPatterns s entries) (p.nameOf s ids) content j m g b m' := ⟨hg, hm, hfind'⟩
    have htest := (overlap_iff hfind hfind').2 hover
    rcases mem_pairs_or (h.mem_order.2 ⟨f, _, hf, hfind⟩) (h.mem_order.2 ⟨g, _, hg, hfind'⟩) hij with hpair | hpair
    · exact ⟨_, ⟨i, j, n, m, f, g, a, l, b, m', hpair, hi, hj, hne, htest, rfl⟩, .inl rfl⟩
    · exact ⟨_, ⟨j, i, m, n, g, f, b, m', a, l, hpair, hj, hi, hne.symm, htest.symm, rfl⟩, .inr rfl⟩

end Detection

theorem nameKey_inj {x y} (h : nameKey x = nameKey y) : x = y :=
  Subtype.ext (map_injective_iff.2 (fun _ _ => UInt8.toNat_inj.1) h)

theorem conflict_winner {i j a l b m name name'} (hne : name ≠ name') :
    nameKey (conflict i j name name' a l b m).winner < nameKey (conflict i j name name' a l b m).loser := by
  unfold conflict
  by_cases hlt : strcmpLt name.1 name'.1 = true
  · simp only [hlt, if_true]
    exact strcmpLt_iff.1 hlt
  · simp only [hlt, Bool.false_eq_true, if_false]
    have hle : nameKey name' ≤ nameKey name := not_lt.1 fun h => hlt (strcmpLt_iff.2 h)
    exact lt_of_le_of_ne hle fun heq => hne (nameKey_inj heq.symm)

theorem Detection.idxOf_lt (h : Detection re env s p ids entries content sorted order) {a b x y}
    (ha : a ∈ sorted) (hb : b ∈ sorted) (hx : p.nameOf s ids a = some x) (hy : p.nameOf s ids b = some y)
    (hlt : nameKey x < nameKey y) : sorted.idxOf a < sorted.idxOf b := by
  by_contra hge
  have hne : sorted.idxOf b ≠ sorted.idxOf a := by
    intro heq
    have hab : b = a := (idxOf_inj hb).1 heq
    rw [hab, hx] at hy
    cases hy
    exact lt_irrefl _ hlt
  have hless := pairwise_iff_getElem.1 h.choices.ordered _ _ (idxOf_lt_length_of_mem hb)
    (idxOf_lt_length_of_mem ha) (by omega)
  rw [getElem_idxOf, getElem_idxOf] at hless
  exact absurd ((nameLess_eq_false hy hx).1 hless) (not_le.2 hlt)

/-- The log is exact if and only if no find pattern has an empty first match inside of that of a pattern of another plugin. -/
theorem conflicts_exact_iff (h : Detection re env s p ids entries content sorted order) :
    Exact re (findPatterns s entries) (p.nameOf s ids) content sorted
        (detectAndLogConflicts re true (findPatterns s entries) s p ids content order) ↔
      ∀ i j f g n m, (findPatterns s entries)[i]? = some (some f) → (findPatterns s entries)[j]? = some (some g) →
        p.nameOf s ids i = some n → p.nameOf s ids j = some m → n ≠ m → ¬ re.EmptyInside f g content := by
  constructor
  · intro hexc i j f g n m hf hg hn hm hne hins
    have hij : i ≠ j := by
      rintro rfl
      exact hne (some.inj (hn.symm.trans hm))
    have hlog := (h.logged_iff hij hf hg hn hm).2 ⟨hne, .inr (.inl hins)⟩
    obtain ⟨-, k, hk, -⟩ := (hexc.pairs i j f g n m hij hf hg hn hm).1 hlog
    exact not_inFirst_of_emptyInside hins hk
  · intro hno
    constructor
    · intro i j f g n m hij hf hg hn hm
      rw [h.logged_iff hij hf hg hn hm]
      constructor
      · rintro ⟨hne, hshr | hins | hins⟩
        · exact ⟨hne, hshr⟩
        · exact absurd hins (hno i j f g n m hf hg hn hm hne)
        · exact absurd hins (hno j i g f m n hg hf hm hn hne.symm)
      · rintro ⟨hne, hshr⟩
        exact ⟨hne, .inl hshr⟩
    · intro c hc
      obtain ⟨i, j, name, name', f, g, a, l, b, m, -, hi, hj, -, -, rfl⟩ := h.mem_log.1 hc
      refine ⟨hi.name, hj.name, ?_⟩
      unfold conflict
      by_cases hlt : strcmpLt name.1 name'.1 = true
      · exact .inl (by simp [hlt])
      · exact .inr (by simp [hlt])
    · intro c hc x y hx hy hwin hlos
      obtain ⟨i, j, name, name', f, g, a, l, b, m, -, -, -, hne, -, rfl⟩ := h.mem_log.1 hc
      exact h.idxOf_lt hx hy hwin hlos (conflict_winner hne)

end Detection

/-! ### Two patterns -/

def firstBoundary (inWord : Bool) : List UInt8 → Option Nat
  | [] => if inWord then some 0 else none
  | c :: cs => if decide (97 ≤ c ∧ c ≤ 122) = inWord then (firstBoundary inWord cs).map (· + 1) else some 0

def boundaries : RE2 where
  ok _ := true
  find pattern text :=
    if pattern.1 = [92, 98] then (firstBoundary false text).map fun k => (k, 0) else literal.find pattern text
  globalReplace := literal.globalReplace

theorem firstBoundary_le {inWord text} (h : firstBoundary inWord text = some k) : k ≤ text.length := by
  induction text generalizing k with
  | nil =>
    obtain ⟨-, rfl⟩ : inWord = true ∧ 0 = k := by simpa [firstBoundary] using h
    exact Nat.le_refl 0
  | cons c cs ih =>
    unfold firstBoundary at h
    split at h
    · obtain ⟨i, hi, rfl⟩ := map_eq_some_iff.1 h
      have := ih hi
      rw [length_cons]
      omega
    · obtain rfl : 0 = k := by simpa using h
      exact Nat.zero_le _

theorem within_boundaries : boundaries.Within := by
  intro pattern text offset length h
  unfold boundaries at h
  simp only at h
  split at h
  · obtain ⟨k, hk, hpair⟩ := map_eq_some_iff.1 h
    obtain ⟨rfl, rfl⟩ := Prod.mk.inj hpair
    exact firstBoundary_le hk
  · obtain ⟨x, hx, hpair⟩ := map_eq_some_iff.1 (show (strstr pattern.1 text).map _ = _ from h)
    obtain ⟨rfl, rfl⟩ := Prod.mk.inj hpair
    have := length_strstr hx
    show x.1.length + pattern.1.length ≤ text.length
    omega

def twoFinds (f g : CString) : Arena :=
  ((Client.start fun _ => 0).run
    [.hashmapAddKey (.ofBytes [112]), .patchlistAdd 0 (.ofBytes [97]) f, .hashmapAddKey (.ofBytes [113]),
      .patchlistAdd 1 (.ofBytes [97]) g]).arena

def twoEntries (f g : CString) : List (Option Nat × TransformData) :=
  (getTransformFromMatches true (fun _ => true) (twoFinds f g) [0, 1]).getD []

theorem exists_detection {f g content order}
    (hpool : (getFileRegexPool (fun _ => true) (twoFinds f g)).isSome = true) (hsize : content.length ≤ maxFileSize)
    (hcnt : (twoFinds f g).items.length ≤ maxPatternCount)
    (hmat : [0, 1].Perm ((range (twoFinds f g).items.length).filter fun i =>
      ((twoFinds f g).items[i]?).any fun x => boundaries.isMatch x.file content))
    (hord : [0, 1].Pairwise fun a b =>
      nameLess (fun k => (([0, 1][k]?).bind ((twoFinds f g).items[·]?)).map Item.name) b a = false)
    (hent : getTransformFromMatches true (fun _ => true) (twoFinds f g) [0, 1] = some (twoEntries f g))
    (horde : order.Perm (matchingIds boundaries (findPatterns (twoFinds f g) (twoEntries f g)) content)) :
    ∃ p, Detection boundaries .plenty (twoFinds f g) p [0, 1] (twoEntries f g) content [0, 1] order := by
  obtain ⟨p, hp⟩ := isSome_iff_exists.1 hpool
  have hrch : Reaches boundaries .plenty (twoFinds f g) content p := ⟨hsize, rfl, hp, hcnt, fun _ _ => rfl, rfl⟩
  have hc := choices_of_items hp hmat (by decide) hord
  exact ⟨p, within_boundaries, hrch.selectPatches_eq hc (by decide), hc, hent, fun _ _ => rfl, horde⟩

theorem conflicts_exact_letters :
    ∃ f g p, f = .ofBytes [98] ∧ g = .ofBytes [97, 98] ∧
      Exact boundaries (findPatterns (twoFinds f g) (twoEntries f g)) (p.nameOf (twoFinds f g) [0, 1]) [97, 98] [0, 1]
        (detectAndLogConflicts boundaries true (findPatterns (twoFinds f g) (twoEntries f g)) (twoFinds f g) p [0, 1] [97, 98]
          [1, 0]) := by
  obtain ⟨p, h⟩ := @exists_detection (.ofBytes [98]) (.ofBytes [97, 98]) [97, 98] [1, 0] (by decide +kernel) (by decide)
    (by decide +kernel) (by decide +kernel) (by decide +kernel) (by decide +kernel) (by decide +kernel)
  have hfull : ∀ o ∈ findPatterns (twoFinds (.ofBytes [98]) (.ofBytes [97, 98])) (twoEntries (.ofBytes [98]) (.ofBytes [97, 98])),
      ∀ f ∈ o, (boundaries.find f [97, 98]).all (·.2 != 0) = true := by decide +kernel
  refine ⟨_, _, p, rfl, rfl, (conflicts_exact_iff h).2 ?_⟩
  rintro i j f g n m hf - - - - ⟨k, offset, length, hfind, -⟩
  have hne := hfull _ (mem_of_getElem? hf) f rfl
  rw [hfind] at hne
  simp at hne

/-- Plugin `p` looks for `\b` and plugin `q` for ` ab`.  In ` ab` the first match of `\b` is empty and has no byte in common with
that of ` ab`, and yet the pair is logged. -/
theorem empty_match_logged :
    ∃ f g p, f = .ofBytes [92, 98] ∧ g = .ofBytes [32, 97, 98] ∧
      Detection boundaries .plenty (twoFinds f g) p [0, 1] (twoEntries f g) [32, 97, 98] [0, 1] [0, 1] ∧
      ¬ Exact boundaries (findPatterns (twoFinds f g) (twoEntries f g)) (p.nameOf (twoFinds f g) [0, 1]) [32, 97, 98] [0, 1]
        (detectAndLogConflicts boundaries true (findPatterns (twoFinds f g) (twoEntries f g)) (twoFinds f g) p [0, 1] [32, 97, 98]
          [0, 1]) := by
  obtain ⟨p, h⟩ := @exists_detection (.ofBytes [92, 98]) (.ofBytes [32, 97, 98]) [32, 97, 98] [0, 1] (by decide +kernel)
    (by decide) (by decide +kernel) (by decide +kernel) (by decide +kernel) (by decide +kernel) (by decide +kernel)
  refine ⟨_, _, p, rfl, rfl, h, fun hexc => ?_⟩
  have hpool := (selectPatches_ok h.selected).1.pool
  have hname : ∀ k, p.nameOf (twoFinds (.ofBytes [92, 98]) (.ofBytes [32, 97, 98])) [0, 1] k =
      (([0, 1][k]?).bind ((twoFinds (.ofBytes [92, 98]) (.ofBytes [32, 97, 98])).items[·]?)).map Item.name :=
    nameOf_eq hpool (h.choices.lt_length hpool)
  have hins : boundaries.EmptyInside (.ofBytes [92, 98]) (.ofBytes [32, 97, 98]) [32, 97, 98] :=
    ⟨1, 0, 3, by decide, by decide, by decide, by decide⟩
  have hn := (hname 0).trans (show _ = some (CString.ofBytes [112]) by decide +kernel)
  have hm := (hname 1).trans (show _ = some (CString.ofBytes [113]) by decide +kernel)
  have hf : (findPatterns (twoFinds (.ofBytes [92, 98]) (.ofBytes [32, 97, 98]))
      (twoEntries (.ofBytes [92, 98]) (.ofBytes [32, 97, 98])))[0]? = some (some (.ofBytes [92, 98])) := by decide +kernel
  have hg : (findPatterns (twoFinds (.ofBytes [92, 98]) (.ofBytes [32, 97, 98]))
      (twoEntries (.ofBytes [92, 98]) (.ofBytes [32, 97, 98])))[1]? = some (some (.ofBytes [32, 97, 98])) := by decide +kernel
  have hlog := (h.logged_iff (by decide) hf hg hn hm).2 ⟨by decide, .inr (.inl hins)⟩
  obtain ⟨-, k, hk, -⟩ := (hexc.pairs 0 1 _ _ _ _ (by decide) hf hg hn hm).1 hlog
  exact not_inFirst_of_emptyInside hins hk

end CloudeLoader
