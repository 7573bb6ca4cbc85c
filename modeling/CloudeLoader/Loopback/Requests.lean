import CloudeLoader.Engine.Encoding
import CloudeLoader.Lib.ByteMemory
import CloudeLoader.Lib.Occurrence

/-!
# Requests of the loopback host (`resource_query_parser.cc`, `main.cc`)

Two functions look at the URL of a request: one asks for the scripts of the host, the other for its pages.  Both look for
the last dot of the whole URL and compare its position with that of the first question mark.
-/

namespace CloudeLoader.Requests

open List Option

open Engine (Bytes utf8)
open ByteMemory Occurrence

def strchr (c : UInt8) : Bytes → Option Nat
  | [] => none
  | x :: l => if x = c then some 0 else (strchr c l).map (· + 1)

def strrchr (c : UInt8) : Bytes → Option Nat
  | [] => none
  | x :: l =>
    match strrchr c l with
    | some i => some (i + 1)
    | none => if x = c then some 0 else none

def skip (word text : Bytes) : Option Bytes := if word.isPrefixOf text then some (text.drop word.length) else none

def afterHost (url : Bytes) : Option Bytes :=
  (skip (utf8 "http") url).bind fun rest =>
    skip (utf8 "://steamloopback.host") (if rest.head? = some 115 then rest.tail else rest)

/-- The last dot is not behind the query, and what stands from there to the query is `ext`. -/
def hasExtension (ext url : Bytes) : Bool :=
  match strrchr 46 url, strchr 63 url with
  | none, _ => false
  | some lastDot, some query =>
    if lastDot > query then false else query - lastDot == ext.length && ext.isPrefixOf (url.drop lastDot)
  | some lastDot, none => url.length - lastDot == ext.length && ext.isPrefixOf (url.drop lastDot)

def hostEnds (rest : Bytes) : Bool := rest.head? = some 47 || rest.isEmpty

def urlpShouldBlockLbReq : Option CString → Bool
  | none => false
  | some url =>
    match afterHost url.1 with
    | none => false
    | some rest => hostEnds rest && hasExtension (utf8 ".js") url.1

/-- `is_steamloopback_html`; what follows the host is not looked at. -/
def isSteamloopbackHtml : Option CString → Bool
  | none => false
  | some url =>
    match afterHost url.1 with
    | none => false
    | some _ => hasExtension (utf8 ".html") url.1

/-- The scheme is `http` or `https`, the host is `steamloopback.host`, and what stands before the query ends in `ext`. -/
def IsRequest (ext url : Bytes) : Prop :=
  ∃ scheme rest, (scheme = utf8 "http" ∨ scheme = utf8 "https") ∧
    url = scheme ++ utf8 "://steamloopback.host" ++ rest ∧ (rest.head? = some 47 ∨ rest = []) ∧
    ext <:+ rest.takeWhile (· ≠ 63)

/-! ### The first and the last position of a byte -/

section Positions

variable {c : UInt8} {a b l ext : Bytes} {i : Nat}

theorem strchr_append (h : c ∉ a) : strchr c (a ++ c :: b) = some a.length := by
  induction a with
  | nil => simp [strchr]
  | cons x a ih =>
    simp only [mem_cons, not_or] at h
    simp [strchr, ih h.2, Ne.symm h.1]

theorem strchr_eq_none : strchr c l = none ↔ c ∉ l := by
  induction l with
  | nil => simp [strchr]
  | cons x l ih =>
    by_cases hx : x = c
    · simp [strchr, hx]
    · simp [strchr, hx, ih, Ne.symm hx]

theorem strrchr_eq_none : strrchr c l = none ↔ c ∉ l := by
  induction l with
  | nil => simp [strrchr]
  | cons x l ih =>
    cases h : strrchr c l with
    | some i =>
      have hmem : c ∈ l := by
        by_contra hno
        rw [ih.2 hno] at h
        cases h
      simp [strrchr, h, hmem]
    | none => simp [strrchr, h, ih.1 h, eq_comm]

theorem strrchr_append (h : c ∉ b) : strrchr c (a ++ c :: b) = some a.length := by
  induction a with
  | nil => simp [strrchr, strrchr_eq_none.2 h]
  | cons x a ih => simp [strrchr, ih]

theorem exists_append_last (h : c ∈ l) : ∃ a b, l = a ++ c :: b ∧ c ∉ b := by
  obtain ⟨b, a, hspl, hno⟩ := eq_append_cons_of_mem (mem_reverse.2 h)
  refine ⟨a.reverse, b.reverse, ?_, by simpa using hno⟩
  rw [← reverse_reverse l, hspl]
  simp

theorem append_last_inj {a' b'} (hb : c ∉ b) (hb' : c ∉ b') (h : a ++ c :: b = a' ++ c :: b') : b = b' := by
  have hlen : a.length = a'.length := some.inj (by rw [← strrchr_append hb, h, strrchr_append hb'])
  exact (List.cons.inj (append_inj h hlen).2).2

end Positions

/-! ### The extension -/

section Extension

variable {w path query : Bytes}

theorem hasExtension_eq {a b ext} (hb : 46 ∉ b) (hq : 46 ∉ query) (hpath : 63 ∉ a ++ 46 :: b)
    (hqry : query = [] ∨ query.head? = some 63) :
    hasExtension ext (a ++ 46 :: b ++ query) = (b.length + 1 == ext.length && ext.isPrefixOf (46 :: b ++ query)) := by
  have hdot : strrchr 46 (a ++ 46 :: b ++ query) = some a.length := by
    rw [append_assoc]
    exact strrchr_append (by simp [hb, hq])
  have hdrop : (a ++ 46 :: b ++ query).drop a.length = 46 :: b ++ query := by simp
  rcases hqry with rfl | hqry
  · have hnone : strchr 63 (a ++ 46 :: b ++ []) = none := strchr_eq_none.2 (by simpa using hpath)
    have hlen : (a ++ 46 :: b ++ []).length - a.length = b.length + 1 := by simp
    simp only [hasExtension, hdot, hnone, hdrop, hlen]
  · obtain ⟨t, rfl⟩ := head?_eq_some_iff.1 hqry
    have hsome : strchr 63 (a ++ 46 :: b ++ 63 :: t) = some (a.length + (b.length + 1)) := by
      rw [strchr_append hpath]
      simp
    simp only [hasExtension, hdot, hsome, hdrop, Nat.add_sub_cancel_left]
    rw [if_neg (by omega)]

theorem hasExtension_of_dot_mem {ext} (hpath : 63 ∉ path) (hqry : query.head? = some 63) (hq : 46 ∈ query) :
    hasExtension ext (path ++ query) = false := by
  obtain ⟨t, rfl⟩ := head?_eq_some_iff.1 hqry
  obtain ⟨a, b, rfl, hb⟩ := exists_append_last (show 46 ∈ t by simpa using hq)
  have hdot : strrchr 46 (path ++ 63 :: (a ++ 46 :: b)) = some (path ++ 63 :: a).length := by
    rw [← strrchr_append hb]
    simp
  have hgt : (path ++ 63 :: a).length > path.length := by simp
  simp only [hasExtension, hdot, strchr_append hpath, if_pos hgt]

theorem hasExtension_iff (hw : 46 ∉ w) (hpath : 63 ∉ path) (hqry : query = [] ∨ query.head? = some 63) :
    hasExtension (46 :: w) (path ++ query) = true ↔ 46 :: w <:+ path ∧ 46 ∉ query := by
  by_cases hq : 46 ∈ query
  · have hhead : query.head? = some 63 := hqry.resolve_left fun h => by simp [h] at hq
    simp [hasExtension_of_dot_mem hpath hhead hq, hq]
  by_cases hp : 46 ∈ path
  · obtain ⟨a, b, rfl, hb⟩ := exists_append_last hp
    rw [hasExtension_eq hb hq hpath hqry]
    simp only [length_cons, Bool.and_eq_true, beq_iff_eq, isPrefixOf_iff_prefix, hq, not_false_eq_true, and_true]
    constructor
    · rintro ⟨hlen, hbeg⟩
      have heq : 46 :: w = 46 :: b := by
        obtain ⟨t, ht⟩ := hbeg
        exact (append_inj ht (by simpa using hlen.symm)).1
      rw [heq]
      exact suffix_append a (46 :: b)
    · rintro ⟨a', ha⟩
      obtain rfl := append_last_inj hw hb ha
      exact ⟨rfl, prefix_append _ _⟩
  · have hnone : strrchr 46 (path ++ query) = none := strrchr_eq_none.2 (by simp [hp, hq])
    have hno : ¬ 46 :: w <:+ path := fun h => hp (h.mem mem_cons_self)
    simp [hasExtension, hnone, hno]

end Extension

/-! ### The host -/

theorem skip_eq_some {word text rest} : skip word text = some rest ↔ text = word ++ rest := by
  constructor
  · intro h
    by_cases hw : word.isPrefixOf text = true
    · obtain ⟨t, rfl⟩ := isPrefixOf_iff_prefix.1 hw
      obtain rfl : t = rest := by simpa [skip, hw] using h
      rfl
    · simp [skip, hw] at h
  · rintro rfl
    simp [skip]

theorem utf8_https : utf8 "https" = utf8 "http" ++ [115] := by decide

theorem utf8_host : utf8 "://steamloopback.host" = utf8 "://steamloopback" ++ 46 :: utf8 "host" := by decide +kernel

theorem afterHost_eq_some {url rest} : afterHost url = some rest ↔
    ∃ scheme, (scheme = utf8 "http" ∨ scheme = utf8 "https") ∧ url = scheme ++ utf8 "://steamloopback.host" ++ rest := by
  have hhead : (utf8 "://steamloopback.host" ++ rest).head? = some 58 := rfl
  simp only [afterHost, bind_eq_some_iff, skip_eq_some]
  constructor
  · rintro ⟨t, rfl, ht⟩
    by_cases hs : t.head? = some 115
    · obtain ⟨t, rfl⟩ := head?_eq_some_iff.1 hs
      refine ⟨_, .inr rfl, ?_⟩
      rw [if_pos hs, tail_cons] at ht
      rw [ht, utf8_https]
      simp
    · rw [if_neg hs] at ht
      exact ⟨_, .inl rfl, by rw [ht, append_assoc]⟩
  · rintro ⟨scheme, rfl | rfl, rfl⟩
    · refine ⟨_, by rw [append_assoc], ?_⟩
      rw [hhead]
      rfl
    · refine ⟨115 :: (utf8 "://steamloopback.host" ++ rest), by rw [utf8_https]; simp, ?_⟩
      rw [head?_cons, if_pos rfl, tail_cons]

theorem suffix_host_append {w pre path} (hw : 46 ∉ w) (hhost : ¬ utf8 "host" <+: w) :
    46 :: w <:+ pre ++ utf8 "://steamloopback.host" ++ path ↔ 46 :: w <:+ path := by
  constructor
  · rintro ⟨t, ht⟩
    rcases append_eq_append_iff.1 ht with ⟨x, hpre, hx⟩ | ⟨x, -, hx⟩
    · cases x with
      | nil => exact hx ▸ suffix_refl _
      | cons y x =>
        obtain ⟨rfl, rfl⟩ := List.cons.inj hx
        rw [utf8_host, ← append_assoc] at hpre
        have hnone : (46 : UInt8) ∉ utf8 "host" := by decide
        obtain rfl := append_last_inj hnone (fun h => hw (mem_append_left _ h)) hpre
        exact absurd (prefix_append _ _) hhost
    · exact ⟨x, hx.symm⟩
  · exact fun h => h.trans (suffix_append _ _)

/-! ### The classification -/

theorem hasExtension_afterHost {w url rest} (hw : 46 ∉ w) (hhost : ¬ utf8 "host" <+: w)
    (hrest : afterHost url = some rest) :
    hasExtension (46 :: w) url = true ↔ 46 :: w <:+ rest.takeWhile (· ≠ 63) ∧ 46 ∉ rest.dropWhile (· ≠ 63) := by
  obtain ⟨scheme, hsch, rfl⟩ := afterHost_eq_some.1 hrest
  have hno : (63 : UInt8) ∉ scheme ++ utf8 "://steamloopback.host" := by
    rcases hsch with rfl | rfl <;> decide +kernel
  have hpath : (63 : UInt8) ∉ scheme ++ utf8 "://steamloopback.host" ++ rest.takeWhile (· ≠ 63) := by
    rw [mem_append, not_or]
    exact ⟨hno, fun h => by simpa using mem_takeWhile_imp h⟩
  have hqry : rest.dropWhile (· ≠ 63) = [] ∨ (rest.dropWhile (· ≠ 63)).head? = some 63 := by
    cases hd : rest.dropWhile (· ≠ 63) with
    | nil => exact .inl rfl
    | cons x t =>
      have hx := head_dropWhile_not (· ≠ (63 : UInt8)) (by rw [hd]; exact cons_ne_nil x t)
      simp only [hd, head_cons, decide_eq_false_iff_not, not_not] at hx
      exact .inr (congrArg some hx)
  have hspl : scheme ++ utf8 "://steamloopback.host" ++ rest =
      scheme ++ utf8 "://steamloopback.host" ++ rest.takeWhile (· ≠ 63) ++ rest.dropWhile (· ≠ 63) := by
    rw [append_assoc (scheme ++ _), takeWhile_append_dropWhile]
  rw [hspl, hasExtension_iff hw hpath hqry, suffix_host_append hw hhost]

theorem isRequest_iff {ext url} : IsRequest ext url ↔
    ∃ rest, afterHost url = some rest ∧ hostEnds rest = true ∧ ext <:+ rest.takeWhile (· ≠ 63) := by
  simp only [IsRequest, afterHost_eq_some, hostEnds, Bool.or_eq_true, decide_eq_true_eq, List.isEmpty_iff]
  constructor
  · rintro ⟨scheme, rest, hsch, hurl, hends, hext⟩
    exact ⟨rest, ⟨scheme, hsch, hurl⟩, hends, hext⟩
  · rintro ⟨rest, ⟨scheme, hsch, hurl⟩, hends, hext⟩
    exact ⟨scheme, rest, hsch, hurl, hends, hext⟩

/-- The condition on a URL of the host.  When it is one of a script or a page, its query has no dot.  When the name of the host
goes on, it is not the case that what stands before the query ends in `.html` and the query has no dot. -/
def Plain (url : Bytes) : Prop :=
  ∀ rest ∈ afterHost url,
    if hostEnds rest then
      utf8 ".js" <:+ rest.takeWhile (· ≠ 63) ∨ utf8 ".html" <:+ rest.takeWhile (· ≠ 63) → 46 ∉ rest.dropWhile (· ≠ 63)
    else ¬ (utf8 ".html" <:+ rest.takeWhile (· ≠ 63) ∧ 46 ∉ rest.dropWhile (· ≠ 63))

/-- The two functions find just the scripts and the pages of the host if and only if the condition holds. -/
theorem classifies_iff (url : CString) :
    ((urlpShouldBlockLbReq (some url) = true ↔ IsRequest (utf8 ".js") url.1) ∧
      (isSteamloopbackHtml (some url) = true ↔ IsRequest (utf8 ".html") url.1)) ↔ Plain url.1 := by
  simp only [isRequest_iff, urlpShouldBlockLbReq, isSteamloopbackHtml, Plain]
  cases hrest : afterHost url.1 with
  | none => simp
  | some rest =>
    have hjs := hasExtension_afterHost (w := utf8 "js") (by decide) (by decide) hrest
    have hhtml := hasExtension_afterHost (w := utf8 "html") (by decide) (by decide) hrest
    have htext : utf8 ".js" = 46 :: utf8 "js" ∧ utf8 ".html" = 46 :: utf8 "html" := by decide
    rw [htext.1, htext.2]
    simp only [Bool.and_eq_true, hjs, hhtml, mem_def, some.injEq, exists_eq_left', forall_eq']
    by_cases hends : hostEnds rest = true
    · simp only [hends, true_and, if_true]
      tauto
    · simp only [hends, false_and, if_false, iff_false, Bool.false_eq_true]
      tauto

theorem dotted_query_misclassified :
    ¬ ((urlpShouldBlockLbReq (some (.ofBytes (utf8 "https://steamloopback.host/chunk.js?v=1.2"))) = true ↔
        IsRequest (utf8 ".js") (CString.ofBytes (utf8 "https://steamloopback.host/chunk.js?v=1.2")).1) ∧
      (isSteamloopbackHtml (some (.ofBytes (utf8 "https://steamloopback.host/chunk.js?v=1.2"))) = true ↔
        IsRequest (utf8 ".html") (CString.ofBytes (utf8 "https://steamloopback.host/chunk.js?v=1.2")).1)) := by
  have hurl : (CString.ofBytes (utf8 "https://steamloopback.host/chunk.js?v=1.2")).1 =
      utf8 "https" ++ utf8 "://steamloopback.host" ++ utf8 "/chunk.js?v=1.2" := by decide +kernel
  have hfal : urlpShouldBlockLbReq (some (.ofBytes (utf8 "https://steamloopback.host/chunk.js?v=1.2"))) = false := by
    decide +kernel
  rintro ⟨hjs, -⟩
  have hreq := hjs.2 ⟨_, _, .inr rfl, hurl, .inl (by decide +kernel), by decide +kernel⟩
  cases hfal.symm.trans hreq

/-! ### The file of a script -/

inductive Platform where
  | windows | apple | linux

def Platform.pathMax : Platform → Nat
  | windows => 260
  | apple => 1024
  | linux => 4096

/-- The directory of the scripts, from `SteamPath` of the registry or from `HOME`. -/
def Platform.steamui : Platform → Option Bytes → Bytes
  | windows, steamPath => steamPath.getD (utf8 "C:\\Program Files (x86)\\Steam") ++ utf8 "/steamui"
  | apple, home => home.getD (utf8 "/Users") ++ utf8 "/Library/Application Support/Steam/steamui"
  | linux, home => home.getD (utf8 "/home") ++ utf8 "/.steam/steam/steamui"

def snprintf (size : Nat) (text : Bytes) : Bytes := text.take (size - 1)

def untilQuery (path : Bytes) : Bytes :=
  match strchr 63 path with
  | some query => path.take query
  | none => path

/-- `out_abs` and `out_rel`; there is memory for both. -/
def urlpPathFromLb (p : Platform) (installed : Option Bytes) (url : CString) : Option (Bytes × Bytes) :=
  (Occurrence.first (utf8 "steamloopback.host") url.1).bind fun host =>
    (strchr 47 (url.1.drop host)).map fun slash =>
      let path := untilQuery (url.1.drop (host + slash))
      (snprintf p.pathMax (p.steamui installed ++ path), path)

/-- What stands in the URL from the first slash behind the host to the query. -/
def requested (url : Bytes) : Bytes := (((afterHost url).getD []).dropWhile (· ≠ 47)).takeWhile (· ≠ 63)

theorem untilQuery_eq (path : Bytes) : untilQuery path = path.takeWhile (· ≠ 63) := by
  unfold untilQuery
  induction path with
  | nil => rfl
  | cons x path ih =>
    by_cases hx : x = 63
    · simp [strchr, hx]
    · rw [takeWhile_cons, if_pos (by simpa using hx), ← ih, strchr, if_neg hx]
      cases strchr 63 path <;> rfl

theorem urlpPathFromLb_eq {p installed} {url : CString} {scheme rest} (hsch : scheme = utf8 "http" ∨ scheme = utf8 "https")
    (hurl : url.1 = scheme ++ utf8 "://steamloopback.host" ++ 47 :: rest) :
    urlpPathFromLb p installed url = some (snprintf p.pathMax (p.steamui installed ++ (47 :: rest).takeWhile (· ≠ 63)),
      (47 :: rest).takeWhile (· ≠ 63)) := by
  have hfir : first (utf8 "steamloopback.host") (scheme ++ utf8 "://steamloopback.host") = some (scheme.length + 3) := by
    rcases hsch with rfl | rfl <;> decide +kernel
  have hdrop : url.1.drop (scheme.length + 3) = utf8 "steamloopback.host" ++ 47 :: rest := by
    rw [hurl, append_assoc, ← drop_drop, drop_left]
    rfl
  have hsls : strchr 47 (url.1.drop (scheme.length + 3)) = some 18 := by
    rw [hdrop]
    exact strchr_append (by decide +kernel)
  have hrest : url.1.drop (scheme.length + 3 + 18) = 47 :: rest := by
    rw [← drop_drop, hdrop]
    rfl
  rw [urlpPathFromLb, hurl, first_append hfir, ← hurl, bind_some, hsls, map_some, hrest, untilQuery_eq]

theorem urlpPathFromLb_blocked (p : Platform) (installed : Option Bytes) {url} (h : urlpShouldBlockLbReq (some url) = true) :
    urlpPathFromLb p installed url = some (snprintf p.pathMax (p.steamui installed ++ requested url.1), requested url.1) ∧
      utf8 ".js" <:+ requested url.1 := by
  obtain ⟨rest, hrest, hends, hext⟩ : ∃ rest, afterHost url.1 = some rest ∧ hostEnds rest = true ∧
      hasExtension (utf8 ".js") url.1 = true := by
    cases hrest : afterHost url.1 with
    | none => simp [urlpShouldBlockLbReq, hrest] at h
    | some rest => exact ⟨rest, rfl, by simpa [urlpShouldBlockLbReq, hrest] using h⟩
  obtain ⟨hjs, -⟩ := (hasExtension_afterHost (w := utf8 "js") (by decide) (by decide) hrest).1 hext
  obtain ⟨scheme, hsch, hurl⟩ := afterHost_eq_some.1 hrest
  cases rest with
  | nil => exact absurd (suffix_nil.1 hjs) (cons_ne_nil _ _)
  | cons c rest =>
    obtain rfl : c = 47 := by simpa [hostEnds] using hends
    have hreq : requested url.1 = (47 :: rest).takeWhile (· ≠ 63) := by
      rw [requested, hrest, getD_some, dropWhile_cons, if_neg (by decide)]
    rw [hreq]
    exact ⟨urlpPathFromLb_eq hsch hurl, hjs⟩

/-- A script maps to its file if and only if the path of the file fits in the buffer. -/
theorem mapsToFile_iff (p : Platform) (installed : Option Bytes) (url : CString) (h : urlpShouldBlockLbReq (some url) = true) :
    urlpPathFromLb p installed url = some (p.steamui installed ++ requested url.1, requested url.1) ∧
        utf8 ".js" <:+ requested url.1 ↔
      (p.steamui installed ++ requested url.1).length < p.pathMax := by
  obtain ⟨heq, hjs⟩ := urlpPathFromLb_blocked p installed h
  have hpos : 0 < p.pathMax := by cases p <;> decide
  rw [heq, and_iff_left hjs, some.injEq, Prod.mk.injEq, and_iff_left rfl, snprintf, take_eq_self_iff]
  omega

theorem mapsToFile_chunk :
    urlpPathFromLb .linux none (.ofBytes (utf8 "https://steamloopback.host/chunk.js?v=1")) =
        some (utf8 "/home/.steam/steam/steamui/chunk.js", utf8 "/chunk.js") ∧ utf8 ".js" <:+ utf8 "/chunk.js" :=
  (mapsToFile_iff .linux none (.ofBytes (utf8 "https://steamloopback.host/chunk.js?v=1")) (by decide +kernel)).2
    (by decide +kernel)

def scriptUrl : CString := .ofBytes (utf8 "https://steamloopback.host/a.js")

def longHome : Option Bytes := some (replicate 4096 97)

theorem long_path_truncated : urlpShouldBlockLbReq (some scriptUrl) = true ∧
    ¬ (urlpPathFromLb .linux longHome scriptUrl =
        some (Platform.linux.steamui longHome ++ requested scriptUrl.1, requested scriptUrl.1) ∧
      utf8 ".js" <:+ requested scriptUrl.1) := by
  have h : urlpShouldBlockLbReq (some scriptUrl) = true := by decide +kernel
  refine ⟨h, fun hmaps => ?_⟩
  rw [(urlpPathFromLb_blocked .linux longHome h).1, some.injEq, Prod.mk.injEq, snprintf, take_eq_self_iff] at hmaps
  have hle := hmaps.1.1
  simp only [Platform.steamui, Platform.pathMax, longHome, getD_some, length_append, length_replicate] at hle
  omega

end CloudeLoader.Requests
