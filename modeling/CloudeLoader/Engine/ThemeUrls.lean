import CloudeLoader.Engine.HttpHooks

/-!
# URLs of theme files (`url_parser.h`, `http_hooks.cc`, `Dispatch.ts`)

The path of a hook is written into a URL by `encode_url`, and `path_from_url` reads it back with `decode_url`.  The
frontend builds the URLs of other theme files without encoding them, and the browser does that instead.
-/

namespace CloudeLoader.Engine

open NetworkHookCtl List

/-! ### Escapes -/

theorem hexDigit?_upperHexDigit {n} (h : n < 16) : hexDigit? (upperHexDigit n) = some n := by
  have hall : ∀ m : Fin 16, hexDigit? (upperHexDigit m.1) = some m.1 := by decide
  exact hall ⟨n, h⟩

theorem le_upperHexDigit {n} (h : n < 16) : 48 ≤ upperHexDigit n := by
  have hall : ∀ m : Fin 16, 48 ≤ upperHexDigit m.1 := by decide
  exact hall ⟨n, h⟩

theorem lt_of_hexDigit? {c n} (h : hexDigit? c = some n) : n < 16 := by
  simp only [hexDigit?, Bool.and_eq_true, decide_eq_true_eq, UInt8.le_iff_toNat_le, UInt8.reduceToNat] at h
  split at h
  · cases h
    omega
  · split at h
    · cases h
      omega
    · split at h <;> cases h
      omega

def decodePlain (c : UInt8) : UInt8 := if c == 43 then 32 else c

section Decoding

variable {c d e : UInt8} {rest p : Bytes}

theorem decodeUrl_cons (hc : c ≠ 37) : decodeUrl (c :: rest) = decodePlain c :: decodeUrl rest := by
  have hne : ¬ (c == 37) = true := by simpa using hc
  rcases rest with _ | ⟨d, _ | ⟨e, rest⟩⟩
  · rw [decodeUrl, decodeUrl, decodePlain, if_neg hne]
    split <;> rfl
  · rw [decodeUrl.eq_3, if_neg hne, decodePlain]
  · rw [decodeUrl.eq_4, if_neg hne, decodePlain]

theorem decodeUrl_percent (rest : Bytes) :
    (∃ d e rest' h l, rest = d :: e :: rest' ∧ hexDigit? d = some h ∧ hexDigit? e = some l ∧
        decodeUrl (37 :: rest) = UInt8.ofNat (h * 16 + l) :: decodeUrl rest') ∨
      decodeUrl (37 :: rest) = decodeUrl rest := by
  rcases rest with _ | ⟨d, _ | ⟨e, rest⟩⟩
  · exact .inr rfl
  · exact .inr rfl
  · cases hd : hexDigit? d with
    | none => exact .inr (by rw [decodeUrl, hd]; rfl)
    | some h =>
      cases he : hexDigit? e with
      | none => exact .inr (by rw [decodeUrl, hd, he]; rfl)
      | some l => exact .inl ⟨d, e, rest, h, l, rfl, hd, he, by rw [decodeUrl, hd, he]; rfl⟩

theorem decodeUrl_escape (c : UInt8) (rest : Bytes) :
    decodeUrl (37 :: upperHexDigit (c.toNat / 16) :: upperHexDigit (c.toNat % 16) :: rest) = c :: decodeUrl rest := by
  have hlt := c.toNat_lt
  rw [decodeUrl, hexDigit?_upperHexDigit (by omega), hexDigit?_upperHexDigit (by omega)]
  have hval : c.toNat / 16 * 16 + c.toNat % 16 = c.toNat := by omega
  simp [hval]

end Decoding

/-! ### The paths of hooks -/

section Codec

variable {c : UInt8} {rest p : Bytes}

theorem encodeByte_cases (c : UInt8) :
    (encodeByte c = [c] ∧ c ≠ 37 ∧ c ≠ 43 ∧ c ≠ 63 ∧ 16 ≤ c) ∨ (c = 32 ∧ encodeByte c = [43]) ∨
      encodeByte c = 37 :: upperHex c := by
  unfold encodeByte
  by_cases hkept : (isAlnum c || c == 45 || c == 95 || c == 46 || c == 126 || c == 47) = true
  · rw [if_pos hkept]
    have hne : ∀ b : UInt8, (isAlnum b || b == 45 || b == 95 || b == 46 || b == 126 || b == 47) = false → c ≠ b := by
      rintro b hb rfl
      cases hb.symm.trans hkept
    refine .inl ⟨rfl, hne 37 (by decide), hne 43 (by decide), hne 63 (by decide), ?_⟩
    simp only [isAlnum, Bool.or_eq_true, Bool.and_eq_true, decide_eq_true_eq, beq_iff_eq, UInt8.le_iff_toNat_le,
      ← UInt8.toNat_inj, UInt8.reduceToNat] at hkept ⊢
    omega
  · rw [if_neg hkept]
    by_cases hbln : c = 32
    · exact .inr (.inl ⟨hbln, by simp [hbln]⟩)
    · exact .inr (.inr (by simp [hbln]))

theorem decodeUrl_encodeByte (h : 16 ≤ c) : decodeUrl (encodeByte c ++ rest) = c :: decodeUrl rest := by
  rcases encodeByte_cases c with ⟨heq, hper, hplus, -⟩ | ⟨rfl, heq⟩ | heq
  · rw [heq, singleton_append, decodeUrl_cons hper, decodePlain, if_neg (by simpa using hplus)]
  · rw [heq, singleton_append, decodeUrl_cons (by decide)]
    rfl
  · have hlow : ¬ c.toNat < 16 := Nat.not_lt.2 (UInt8.le_iff_toNat_le.1 h)
    rw [heq, upperHex, if_neg hlow]
    exact decodeUrl_escape c rest

theorem decodeUrl_encodeUrl_append (h : ∀ c ∈ p, 16 ≤ c) : decodeUrl (encodeUrl p ++ rest) = p ++ decodeUrl rest := by
  induction p with
  | nil => rfl
  | cons c p ih =>
    rw [encodeUrl, flatMap_cons, append_assoc, decodeUrl_encodeByte (h c mem_cons_self)]
    exact congrArg (c :: ·) (ih fun b hb => h b (mem_cons_of_mem c hb))

theorem decodeUrl_encodeByte_ne (h : c < 16) (hc : c ≠ 0) (rest out : Bytes) :
    decodeUrl (encodeByte c ++ rest) ≠ c :: out := by
  have hlt : c.toNat < 16 := UInt8.lt_iff_toNat_lt.1 h
  have hpos : c.toNat ≠ 0 := fun hzero => hc (UInt8.toNat_inj.1 hzero)
  rcases encodeByte_cases c with ⟨-, -, -, -, hle⟩ | ⟨rfl, -⟩ | heq
  · exact absurd hle (UInt8.not_le.2 h)
  · exact absurd h (by decide)
  · rw [heq, upperHex, if_pos hlt, cons_append, singleton_append]
    have hdig := hexDigit?_upperHexDigit hlt
    rcases decodeUrl_percent (upperHexDigit c.toNat :: rest) with ⟨d, e, rest', v, l, hrest, hd, he, hout⟩ | hout
    -- with a digit behind it, the digit of the byte becomes the first of two
    · obtain ⟨rfl, -⟩ := cons.inj hrest
      cases hdig.symm.trans hd
      rw [hout]
      intro heq
      have hval := congrArg UInt8.toNat (cons.inj heq).1
      have hl := lt_of_hexDigit? he
      rw [UInt8.toNat_ofNat', Nat.mod_eq_of_lt (by omega)] at hval
      omega
    -- else the percent sign is left out and the digit stays
    · have hle := le_upperHexDigit hlt
      have hper : upperHexDigit c.toNat ≠ 37 := fun heq => absurd (heq ▸ hle) (by decide)
      have hplus : upperHexDigit c.toNat ≠ 43 := fun heq => absurd (heq ▸ hle) (by decide)
      rw [hout, decodeUrl_cons hper, decodePlain, if_neg (by simpa using hplus)]
      intro heq
      rw [(cons.inj heq).1] at hle
      exact absurd (UInt8.lt_of_le_of_lt hle h) (by decide)

theorem decodeUrl_encodeUrl_iff (h : 0 ∉ p) : decodeUrl (encodeUrl p) = p ↔ ∀ c ∈ p, 16 ≤ c := by
  constructor
  · intro heq
    induction p with
    | nil => simp
    | cons c p ih =>
      rw [mem_cons, not_or] at h
      rw [encodeUrl, flatMap_cons] at heq
      by_cases hc : 16 ≤ c
      · rw [decodeUrl_encodeByte hc] at heq
        exact forall_mem_cons.2 ⟨hc, ih h.2 (cons.inj heq).2⟩
      · exact absurd heq (decodeUrl_encodeByte_ne (UInt8.not_le.1 hc) (Ne.symm h.1) _ _)
  · intro hall
    have hdec := @decodeUrl_encodeUrl_append [] p hall
    rwa [decodeUrl, append_nil, append_nil] at hdec

theorem notMem_encodeUrl (p : Bytes) : 63 ∉ encodeUrl p := by
  have hdig : ∀ n : Fin 16, 63 ≠ upperHexDigit n.1 := by decide
  rw [encodeUrl, mem_flatMap]
  rintro ⟨c, -, hmem⟩
  rcases encodeByte_cases c with ⟨heq, -, -, hne, -⟩ | ⟨-, heq⟩ | heq
  · rw [heq, mem_singleton] at hmem
    exact hne hmem.symm
  · rw [heq] at hmem
    exact absurd hmem (by decide)
  · have hlt := c.toNat_lt
    rw [heq, mem_cons, upperHex] at hmem
    rcases hmem with hmem | hmem
    · exact absurd hmem (by decide)
    · split at hmem
      · next hlow => exact hdig ⟨c.toNat, hlow⟩ (mem_singleton.1 hmem)
      · rcases mem_pair.1 hmem with hmem | hmem
        · exact hdig ⟨c.toNat / 16, by omega⟩ hmem
        · exact hdig ⟨c.toNat % 16, by omega⟩ hmem

end Codec

/-! ### The files of URLs -/

def NetworkHookCtl.themesDir (ctl : NetworkHookCtl) : Bytes := joinPath ctl.cloudePath (utf8 "themes")

theorem pathFromUrl_themes (ctl : NetworkHookCtl) (path : Bytes) :
    ctl.pathFromUrl (themesUrl ++ path) = joinPath ctl.themesDir (decodeUrl (path.takeWhile (· ≠ 63))) := by
  rw [pathFromUrl]
  rfl

/-- The path of a hook survives `encode_url` and `decode_url`, and the file in the directory of the themes is found, if and
only if the path has no byte below 16. -/
theorem codec_iff (ctl : NetworkHookCtl) {p : Bytes} (h : 0 ∉ p) :
    decodeUrl (encodeUrl p) = p ∧ ctl.pathFromUrl (themesUrl ++ encodeUrl p) = joinPath ctl.themesDir p ↔
      ∀ c ∈ p, 16 ≤ c := by
  rw [← decodeUrl_encodeUrl_iff h, and_iff_left_iff_imp]
  intro hdec
  have hno : ∀ c ∈ encodeUrl p, decide (c ≠ 63) = true := fun c hc => by
    simpa using ne_of_mem_of_not_mem hc (notMem_encodeUrl p)
  rw [pathFromUrl_themes, takeWhile_eq_self_iff.2 hno, hdec]

theorem codec_query :
    decodeUrl (encodeUrl (utf8 "a?b+c %é.css")) = utf8 "a?b+c %é.css" ∧
      bodyTimeout.pathFromUrl (themesUrl ++ encodeUrl (utf8 "a?b+c %é.css")) =
        joinPath bodyTimeout.themesDir (utf8 "a?b+c %é.css") :=
  (codec_iff bodyTimeout (notMem_of_all (by decide +kernel))).2 (by decide +kernel)

theorem line_break_not_read_back :
    0 ∉ utf8 "a\n.css" ∧
      ¬ (decodeUrl (encodeUrl (utf8 "a\n.css")) = utf8 "a\n.css" ∧
        bodyTimeout.pathFromUrl (themesUrl ++ encodeUrl (utf8 "a\n.css")) =
          joinPath bodyTimeout.themesDir (utf8 "a\n.css")) :=
  ⟨notMem_of_all (by decide +kernel), by decide +kernel⟩

/-! ### URLs of the frontend -/

def constructThemePath (protocol nativeName relativePath : Bytes) : Bytes :=
  protocol ++ utf8 "//cloude.host/v1/themes" ++ utf8 "/" ++ nativeName ++ utf8 "/" ++ relativePath

/-- The bytes that the browser escapes in a URL: the blank and all that is not ASCII, but not `+`, `%` and `?`, and none of the
bytes of a host. -/
structure EscapeSet where
  escapes : UInt8 → Bool
  blank : escapes 32 = true
  nonAscii : ∀ c, 128 ≤ c → escapes c = true
  plus : escapes 43 = false
  percent : escapes 37 = false
  question : escapes 63 = false
  host : themesUrl.all (fun c => !escapes c) = true

namespace EscapeSet

variable (set : EscapeSet)

def escapeByte (c : UInt8) : Bytes :=
  if set.escapes c then [37, upperHexDigit (c.toNat / 16), upperHexDigit (c.toNat % 16)] else [c]

def escape (text : Bytes) : Bytes := text.flatMap set.escapeByte

def serialise (url : Bytes) : Bytes := set.escape (url.takeWhile (· ≠ 35))

variable {set} {text : Bytes}

theorem escape_append (a b : Bytes) : set.escape (a ++ b) = set.escape a ++ set.escape b := flatMap_append

theorem escape_cons (c : UInt8) (text : Bytes) : set.escape (c :: text) = set.escapeByte c ++ set.escape text :=
  flatMap_cons

theorem escape_themesUrl (set : EscapeSet) : set.escape themesUrl = themesUrl := by
  have hkept : ∀ c ∈ themesUrl, set.escapes c = false := fun c hc => by
    simpa using all_eq_true.1 set.host c hc
  generalize themesUrl = text at hkept
  induction text with
  | nil => rfl
  | cons c text ih =>
    rw [escape_cons, ih fun b hb => hkept b (mem_cons_of_mem c hb), escapeByte, if_neg]
    · rfl
    · rw [hkept c mem_cons_self]
      exact Bool.false_ne_true

theorem takeWhile_escape (set : EscapeSet) (text : Bytes) :
    (set.escape text).takeWhile (· ≠ 63) = set.escape (text.takeWhile (· ≠ 63)) := by
  have hdig : ∀ n : Fin 16, upperHexDigit n.1 ≠ 63 := by decide
  induction text with
  | nil => rfl
  | cons c text ih =>
    have hlt := c.toNat_lt
    have hhigh := hdig ⟨c.toNat / 16, by omega⟩
    have hlow := hdig ⟨c.toNat % 16, by omega⟩
    by_cases hc : c = 63
    · simp [hc, escape_cons, escapeByte, set.question]
      rfl
    · rw [escape_cons, takeWhile_cons_of_pos (by simpa using hc), escape_cons, ← ih, escapeByte]
      split
      · simp [hhigh, hlow]
      · simp [hc]

theorem decodeUrl_escape_of_notMem (h : 37 ∉ text) : decodeUrl (set.escape text) = text.map decodePlain := by
  induction text with
  | nil => rfl
  | cons c text ih =>
    rw [mem_cons, not_or] at h
    rw [escape_cons, map_cons, ← ih h.2, escapeByte]
    by_cases hc : set.escapes c = true
    · have hplus : c ≠ 43 := by
        rintro rfl
        cases hc.symm.trans set.plus
      rw [if_pos hc, decodePlain, if_neg (by simpa using hplus)]
      exact decodeUrl_escape c _
    · rw [if_neg hc, singleton_append, decodeUrl_cons (Ne.symm h.1)]

theorem escape_eq_digit {d rest n} (hd : hexDigit? d = some n) (h : set.escape text = d :: rest) :
    ∃ text', text = d :: text' ∧ set.escape text' = rest := by
  cases text with
  | nil => cases h
  | cons c text =>
    rw [escape_cons, escapeByte] at h
    split at h
    · obtain ⟨rfl, -⟩ := cons.inj h
      cases hd
    · obtain ⟨rfl, hrest⟩ := cons.inj h
      exact ⟨text, rfl, hrest⟩

theorem length_decodeUrl_escape (set : EscapeSet) (text : Bytes) :
    (decodeUrl (set.escape text)).length + (if 37 ∈ text then 1 else 0) ≤ text.length := by
  induction hn : text.length using Nat.strongRecOn generalizing text with
  | ind n ih =>
    cases text with
    | nil => exact Nat.zero_le _
    | cons c text =>
      rw [length_cons] at hn
      have hrest := ih text.length (by omega) text rfl
      by_cases hper : c = 37
      · subst hper
        rw [if_pos mem_cons_self, escape_cons, escapeByte, if_neg (by simp [set.percent]), singleton_append]
        rcases decodeUrl_percent (set.escape text) with ⟨d, e, rest, v, l, hsent, hd, he, hout⟩ | hout
        -- two digits of the text go with the percent sign
        · obtain ⟨text₁, rfl, hsent₁⟩ := escape_eq_digit hd hsent
          obtain ⟨text₂, rfl, rfl⟩ := escape_eq_digit he hsent₁
          have hrest₂ := ih text₂.length (by simp at hn; omega) text₂ rfl
          rw [hout, length_cons]
          simp only [length_cons] at hn
          omega
        · rw [hout]
          omega
      · have hmem : (37 ∈ c :: text) ↔ 37 ∈ text := by simp [Ne.symm hper]
        have hout : (decodeUrl (set.escape (c :: text))).length = (decodeUrl (set.escape text)).length + 1 := by
          rw [escape_cons, escapeByte]
          split
          · exact congrArg length (decodeUrl_escape c (set.escape text))
          · exact congrArg length (decodeUrl_cons hper)
        simp only [hmem, hout]
        omega

end EscapeSet

section Paths

variable {a b n r x s : Bytes}

theorem joinPath_of_relative (h : b.head? ≠ some 47) : joinPath a b = joinPath a [] ++ b := by
  have hemp : ¬ ([] : Bytes).head? = some 47 := by simp
  unfold joinPath
  rw [if_neg h]
  split
  · rw [append_nil]
  · simp

theorem eq_of_joinPath_eq (ha : a ≠ []) (hs : s.head? ≠ some 47) (hle : x.length ≤ s.length)
    (h : joinPath a x = joinPath a s) : x = s := by
  rw [joinPath_of_relative hs] at h
  by_cases hx : x.head? = some 47
  · have hdir : (joinPath a []).length ≠ 0 := by
      unfold joinPath
      rw [if_neg (by simp)]
      split <;> simp [ha]
    rw [joinPath, if_pos hx] at h
    have hlen := congrArg length h
    rw [length_append] at hlen
    omega
  · rw [joinPath_of_relative hx] at h
    exact append_cancel_left h

theorem themesDir_ne_nil (ctl : NetworkHookCtl) : ctl.themesDir ≠ [] := by
  rw [themesDir, joinPath_of_relative (by decide)]
  exact append_ne_nil_of_right_ne_nil _ (by decide)

theorem joinPath_joinPath (hn : n ≠ []) (hsls : 47 ∉ n) (hr : r.head? ≠ some 47) :
    joinPath (joinPath a n) r = joinPath a (n ++ 47 :: r) := by
  obtain ⟨c, n', rfl⟩ := exists_cons_of_ne_nil hn
  have hc : c ≠ 47 := fun heq => hsls (heq ▸ mem_cons_self)
  have hlast : (joinPath a [] ++ c :: n').getLast? ≠ some 47 := by
    rw [getLast?_append_cons]
    exact fun hlast => hsls (mem_of_getLast? hlast)
  rw [joinPath_of_relative hr, joinPath_of_relative (b := c :: n') (by simpa using hc),
    joinPath_of_relative (b := (c :: n') ++ 47 :: r) (by simpa using hc), joinPath, if_neg (by simp), if_neg (by simpa using hlast)]
  simp

end Paths

/-! ### The files of the frontend -/

theorem serialise_constructThemePath (set : EscapeSet) (n r : Bytes) :
    set.serialise (constructThemePath (utf8 "https:") n r) =
      themesUrl ++ set.escape ((n ++ 47 :: r).takeWhile (· ≠ 35)) := by
  have hstr : utf8 "https:" ++ utf8 "//cloude.host/v1/themes" ++ utf8 "/" = themesUrl := by decide +kernel
  have hurl : constructThemePath (utf8 "https:") n r = themesUrl ++ (n ++ 47 :: r) := by
    simp only [constructThemePath, append_assoc]
    rfl
  have hno : ∀ c ∈ themesUrl, decide (c ≠ 35) = true := all_eq_true.1 (by decide +kernel)
  rw [EscapeSet.serialise, hurl, takeWhile_append_of_pos hno, EscapeSet.escape_append, EscapeSet.escape_themesUrl]

theorem decodePlain_eq_self_iff {c} : decodePlain c = c ↔ c ≠ 43 := by
  unfold decodePlain
  by_cases hc : c = 43
  · simp [hc]
  · simp [hc]

def EscapeSet.arrives (set : EscapeSet) (file : Bytes) : Bytes :=
  decodeUrl (set.escape ((file.takeWhile (· ≠ 35)).takeWhile (· ≠ 63)))

theorem EscapeSet.length_arrives_le (set : EscapeSet) (file : Bytes) : (set.arrives file).length ≤ file.length := by
  have hdec := set.length_decodeUrl_escape ((file.takeWhile (· ≠ 35)).takeWhile (· ≠ 63))
  have hfrg := ( takeWhile_prefix (l := file) (· ≠ 35)).length_le
  have hqry := ( takeWhile_prefix (l := file.takeWhile (· ≠ 35)) (· ≠ 63)).length_le
  unfold EscapeSet.arrives
  omega

theorem EscapeSet.arrives_eq_self_iff (set : EscapeSet) (file : Bytes) :
    set.arrives file = file ↔ ∀ c ∈ file, c ≠ 43 ∧ c ≠ 37 ∧ c ≠ 63 ∧ c ≠ 35 := by
  have hmap : file.map decodePlain = file ↔ ∀ c ∈ file, decodePlain c = id c := by
    rw [← map_inj_left, map_id]
  unfold EscapeSet.arrives
  constructor
  · intro heq
    -- nothing is cut off and no percent sign is there, since both make the path shorter
    have hdec := set.length_decodeUrl_escape ((file.takeWhile (· ≠ 35)).takeWhile (· ≠ 63))
    have hfrg := takeWhile_prefix (l := file) (· ≠ 35)
    have hqry := takeWhile_prefix (l := file.takeWhile (· ≠ 35)) (· ≠ 63)
    rw [heq] at hdec
    have hwhl := (hqry.trans hfrg).eq_of_length_le (by omega)
    rw [hwhl] at heq hdec hqry
    have hcut := hfrg.eq_of_length_le hqry.length_le
    rw [hcut] at hwhl
    have hper : 37 ∉ file := fun hmem => by
      rw [if_pos hmem] at hdec
      omega
    rw [EscapeSet.decodeUrl_escape_of_notMem hper, hmap] at heq
    intro c hc
    have hno₃₅ := takeWhile_eq_self_iff.1 hcut c hc
    have hno₆₃ := takeWhile_eq_self_iff.1 hwhl c hc
    exact ⟨decodePlain_eq_self_iff.1 (heq c hc), ne_of_mem_of_not_mem hc hper, of_decide_eq_true hno₆₃,
      of_decide_eq_true hno₃₅⟩
  · intro hall
    rw [takeWhile_eq_self_iff.2 fun c hc => decide_eq_true (hall c hc).2.2.2,
      takeWhile_eq_self_iff.2 fun c hc => decide_eq_true (hall c hc).2.2.1,
      EscapeSet.decodeUrl_escape_of_notMem fun hmem => (hall 37 hmem).2.1 rfl, hmap]
    exact fun c hc => decodePlain_eq_self_iff.2 (hall c hc).1

/-- The file of a theme is found if and only if its name and that of the theme have no `+`, `%`, `?` and `#`. -/
theorem themePath_iff (ctl : NetworkHookCtl) (set : EscapeSet) {n r : Bytes} (hn : n ≠ []) (hslash : 47 ∉ n)
    (hr : r.head? ≠ some 47) :
    ctl.pathFromUrl (set.serialise (constructThemePath (utf8 "https:") n r)) = joinPath (joinPath ctl.themesDir n) r ↔
      ∀ c ∈ n ++ r, c ≠ 43 ∧ c ≠ 37 ∧ c ≠ 63 ∧ c ≠ 35 := by
  have hmem : (∀ c ∈ n ++ r, c ≠ 43 ∧ c ≠ 37 ∧ c ≠ 63 ∧ c ≠ 35) ↔
      ∀ c ∈ n ++ 47 :: r, c ≠ 43 ∧ c ≠ 37 ∧ c ≠ 63 ∧ c ≠ 35 := by
    simp only [forall_mem_append, forall_mem_cons]
    exact and_congr_right fun _ => (and_iff_right (by decide)).symm
  have hhead : (n ++ 47 :: r).head? ≠ some 47 := by
    obtain ⟨c, n', rfl⟩ := exists_cons_of_ne_nil hn
    rintro ⟨⟩
    exact hslash mem_cons_self
  rw [serialise_constructThemePath, pathFromUrl_themes, EscapeSet.takeWhile_escape, joinPath_joinPath hn hslash hr, hmem,
    ← EscapeSet.arrives, ← set.arrives_eq_self_iff]
  constructor
  · exact eq_of_joinPath_eq (themesDir_ne_nil ctl) hhead (set.length_arrives_le _)
  · intro heq
    rw [heq]

def pathEscapes : EscapeSet where
  escapes c := c ≤ 32 || 126 < c || c == 34 || c == 60 || c == 62 || c == 94 || c == 96 || c == 123 || c == 125
  blank := by decide
  nonAscii c hc := by
    have h : 126 < c := UInt8.lt_of_lt_of_le (by decide) hc
    simp [h]
  plus := by decide
  percent := by decide
  question := by decide
  host := by decide +kernel

theorem themePath_blank :
    bodyTimeout.pathFromUrl
        (pathEscapes.serialise (constructThemePath (utf8 "https:") (utf8 "Dark Mode") (utf8 "src/theme.css"))) =
      joinPath (joinPath bodyTimeout.themesDir (utf8 "Dark Mode")) (utf8 "src/theme.css") :=
  (themePath_iff _ _ (by decide) (notMem_of_all (by decide +kernel)) (by decide)).2 (by decide +kernel)

theorem plus_theme_not_found :
    utf8 "Dark+" ≠ [] ∧ 47 ∉ utf8 "Dark+" ∧ (utf8 "theme.css").head? ≠ some 47 ∧
      bodyTimeout.pathFromUrl
          (pathEscapes.serialise (constructThemePath (utf8 "https:") (utf8 "Dark+") (utf8 "theme.css"))) ≠
        joinPath (joinPath bodyTimeout.themesDir (utf8 "Dark+")) (utf8 "theme.css") :=
  ⟨by decide, notMem_of_all (by decide +kernel), by decide, by decide +kernel⟩

end CloudeLoader.Engine
