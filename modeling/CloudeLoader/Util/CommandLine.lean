import CloudeLoader.Engine.Encoding
import Mathlib

/-!
# Command lines (`cmdline_parser.cc`)

`parse` cuts a command line into tokens and `build` writes it again.  On Windows a token never has a quote in it.  On Linux
`build` escapes quotes and backslashes, but `parse` knows no escapes.
-/

namespace CloudeLoader.CommandLine

open Engine List

structure Command where
  exec : Bytes
  params : List Bytes
  deriving DecidableEq

/-! ### Parameters -/

def hasKey (key p : Bytes) : Bool := p = key || (key ++ [61]).isPrefixOf p

section Ensure

variable (key : Bytes) (value : Option Bytes) (params : List Bytes)

def entry : Bytes := value.elim key fun v => key ++ 61 :: v

def replaceFirst (key new : Bytes) : List Bytes → Option (List Bytes)
  | [] => none
  | p :: params => if hasKey key p then some (new :: params) else (replaceFirst key new params).map (p :: ·)

def ensureParam : List Bytes :=
  (replaceFirst key (entry key value) params).getD (entry key value :: params)

def removeParam : List Bytes := params.filter (!hasKey key ·)

theorem hasKey_entry : hasKey key (entry key value) = true := by
  cases value with
  | none => simp [hasKey, entry]
  | some v => simp [hasKey, entry]

/-- The entry takes the place of the first parameter with the key, or comes first. -/
theorem ensureParam_cases :
    ∃ pre post, ensureParam key value params = pre ++ entry key value :: post ∧ (∀ p ∈ pre, hasKey key p = false) ∧
      ((pre = [] ∧ post = params ∧ ∀ p ∈ params, hasKey key p = false) ∨
        ∃ p, hasKey key p = true ∧ params = pre ++ p :: post) := by
  suffices h : (replaceFirst key (entry key value) params = none ∧ ∀ p ∈ params, hasKey key p = false) ∨
      ∃ pre p post, params = pre ++ p :: post ∧ (∀ q ∈ pre, hasKey key q = false) ∧ hasKey key p = true ∧
        replaceFirst key (entry key value) params = some (pre ++ entry key value :: post) by
    obtain ⟨hnone, hall⟩ | ⟨pre, p, post, hpar, hpre, hp, hsome⟩ := h
    · exact ⟨[], params, by rw [ensureParam, hnone]; rfl, by simp, .inl ⟨rfl, rfl, hall⟩⟩
    · exact ⟨pre, post, by rw [ensureParam, hsome]; rfl, hpre, .inr ⟨p, hp, hpar⟩⟩
  induction params with
  | nil => exact .inl ⟨rfl, by simp⟩
  | cons q params ih =>
    rw [replaceFirst]
    cases hq : hasKey key q with
    | true => exact .inr ⟨[], q, params, rfl, by simp, hq, rfl⟩
    | false =>
      obtain ⟨hnone, hall⟩ | ⟨pre, p, post, rfl, hpre, hp, hsome⟩ := ih
      · exact .inl ⟨by simp [hnone], forall_mem_cons.2 ⟨hq, hall⟩⟩
      · exact .inr ⟨q :: pre, p, post, rfl, forall_mem_cons.2 ⟨hq, hpre⟩, hp, by simp [hsome]⟩

theorem filter_ensureParam :
    (ensureParam key value params).filter (!hasKey key ·) = params.filter (!hasKey key ·) := by
  obtain ⟨pre, post, hens, -, ⟨rfl, rfl, -⟩ | ⟨p, hp, rfl⟩⟩ := ensureParam_cases key value params
  · simp [hens, hasKey_entry]
  · simp [hens, hasKey_entry, hp]

theorem ensureParam_ensureParam :
    ensureParam key value (ensureParam key value params) = ensureParam key value params := by
  obtain ⟨pre, post, hens, hpre, -⟩ := ensureParam_cases key value params
  have hfir : replaceFirst key (entry key value) (pre ++ entry key value :: post) =
      some (pre ++ entry key value :: post) := by
    clear hens
    induction pre with
    | nil => simp [replaceFirst, hasKey_entry]
    | cons p pre ih =>
      rw [forall_mem_cons] at hpre
      simp [replaceFirst, hpre.1, ih hpre.2]
  rw [hens, ensureParam, hfir]
  rfl

/-- What `ensure_param` is for: only the entry is left of the key, and a second call changes nothing. -/
def Wins : Prop :=
  (∀ p ∈ ensureParam key value params, hasKey key p = true → p = entry key value) ∧
    (ensureParam key value params).filter (!hasKey key ·) = params.filter (!hasKey key ·) ∧
    ensureParam key value (ensureParam key value params) = ensureParam key value params

/-- `ensure_param` wins if and only if the parameters with the key, but for the first, are the entry already. -/
theorem ensureParam_wins_iff :
    Wins key value params ↔ ∀ p ∈ (params.filter (hasKey key ·)).tail, p = entry key value := by
  rw [Wins, and_iff_left ⟨filter_ensureParam key value params, ensureParam_ensureParam key value params⟩]
  obtain ⟨pre, post, hens, hpre, h⟩ := ensureParam_cases key value params
  have hnil : pre.filter (hasKey key ·) = [] := by simpa [filter_eq_nil_iff] using hpre
  have haft : (∀ p ∈ ensureParam key value params, hasKey key p = true → p = entry key value) ↔
      ∀ p ∈ post.filter (hasKey key ·), p = entry key value := by
    simp only [hens, mem_append, mem_cons, mem_filter]
    constructor
    · exact fun h p hp => h p (.inr (.inr hp.1)) hp.2
    · rintro h p (hp | rfl | hp) hkey
      · simp [hpre p hp] at hkey
      · rfl
      · exact h p ⟨hp, hkey⟩
  rw [haft]
  obtain ⟨rfl, rfl, hall⟩ | ⟨p, hp, rfl⟩ := h
  · have hpost : post.filter (hasKey key ·) = [] := by simpa [filter_eq_nil_iff] using hall
    simp [hpost]
  · simp [hnil, hp]

end Ensure

/-- The browser takes the second one. -/
theorem second_port_kept :
    ¬Wins (utf8 "--port") (some (utf8 "8080")) [utf8 "--port=1", utf8 "--port=2"] := by
  rintro ⟨hwins, -⟩
  exact absurd (hwins (utf8 "--port=2") (by decide +kernel) (by decide +kernel)) (by decide +kernel)

/-! ### Parsing -/

def isQuoteChar (windows : Bool) (c : UInt8) : Bool := c == 34 || (!windows && c == 39)

/-- The loop of `parse`: the token so far, the quote that is open, and the tokens that were flushed. -/
structure Scanner where
  token : Bytes
  quote : Option UInt8
  tokens : List Bytes

namespace Scanner

def flush (s : Scanner) : Scanner := if s.token = [] then s else { s with token := [], tokens := s.tokens ++ [s.token] }

def step (windows : Bool) (s : Scanner) (c : UInt8) : Scanner :=
  if isQuoteChar windows c && s.quote.all (· = c) then { s with quote := if s.quote.isSome then none else some c }
  else if c = 32 && s.quote.isNone then s.flush
  else { s with token := s.token ++ [c] }

end Scanner

def tokens (windows : Bool) (text : Bytes) : List Bytes :=
  ((cString text).foldl (Scanner.step windows) ⟨[], none, []⟩).flush.tokens

def parse (windows : Bool) (text : Bytes) : Command := ⟨(tokens windows text).headD [], (tokens windows text).tail⟩

/-- The characters for which `quote_token` quotes. -/
def needsQuotes (windows : Bool) (token : Bytes) : Bool :=
  token.any fun c => c == 32 || if windows then c == 61 else c == 9 || c == 34 || c == 39

def escape (c : UInt8) : Bytes := if c == 34 || c == 92 then [92, c] else [c]

def quoteToken (windows : Bool) (token : Bytes) : Bytes :=
  if needsQuotes windows token then 34 :: (if windows then token else token.flatMap escape) ++ [34] else token

def build (windows : Bool) (cmd : Command) : Bytes :=
  quoteToken windows cmd.exec ++ cmd.params.flatMap fun p => 32 :: quoteToken windows p

section Rebuilt

variable {windows : Bool} {token : Bytes} {done : List Bytes}

theorem scan_plain {q : Option UInt8} {text : Bytes} (h : ∀ c ∈ text, (isQuoteChar windows c && q.all (· = c)) = false ∧
    (c = 32 && q.isNone) = false) :
    text.foldl (Scanner.step windows) ⟨token, q, done⟩ = ⟨token ++ text, q, done⟩ := by
  induction text generalizing token with
  | nil => simp
  | cons c text ih =>
    rw [forall_mem_cons] at h
    rw [foldl_cons, Scanner.step, h.1.1, h.1.2, if_neg (by simp), if_neg (by simp), ih h.2]
    simp

/-- The token is read back. -/
def Survives (windows : Bool) (token : Bytes) : Prop :=
  token ≠ [] ∧ ∀ done, (quoteToken windows token).foldl (Scanner.step windows) ⟨[], none, done⟩ = ⟨token, none, done⟩

theorem survives (hne : token ≠ []) (hqt : 34 ∉ token)
    (hesc : windows = false → needsQuotes windows token = true → 92 ∉ token) : Survives windows token := by
  refine ⟨hne, fun done => ?_⟩
  rw [quoteToken]
  cases hnds : needsQuotes windows token with
  | false =>
    rw [if_neg (by simp), scan_plain, nil_append]
    intro c hc
    have hpln := (any_eq_false.1 hnds) c hc
    have hc34 : c ≠ 34 := fun h => hqt (h ▸ hc)
    cases windows <;> simp_all [isQuoteChar]
  | true =>
    have hbody : (if windows then token else token.flatMap escape) = token := by
      cases windows with
      | true => rfl
      | false =>
        have hid : ∀ c ∈ token, escape c = [c] := by
          intro c hc
          have hc34 : c ≠ 34 := fun h => hqt (h ▸ hc)
          have hc92 : c ≠ 92 := fun h => hesc rfl hnds (h ▸ hc)
          simp [escape, hc34, hc92]
        rw [if_neg (by simp), flatMap_congr hid, flatMap_singleton']
    have hopen : ∀ q, Scanner.step windows ⟨q, none, done⟩ 34 = ⟨q, some 34, done⟩ := fun _ => rfl
    have hcls : Scanner.step windows ⟨token, some 34, done⟩ 34 = ⟨token, none, done⟩ := rfl
    have hins : token.foldl (Scanner.step windows) ⟨[], some 34, done⟩ = ⟨token, some 34, done⟩ := by
      rw [scan_plain, nil_append]
      intro c hc
      have hc34 : c ≠ 34 := fun h => hqt (h ▸ hc)
      simp [Ne.symm hc34]
    rw [if_pos rfl, hbody, cons_append, foldl_cons, hopen, foldl_append, hins, foldl_cons, hcls,
      foldl_nil]

theorem scan_params {params} (hne : token ≠ []) (h : ∀ p ∈ params, Survives windows p) :
    ((params.flatMap fun p => 32 :: quoteToken windows p).foldl (Scanner.step windows) ⟨token, none, done⟩).flush.tokens =
      done ++ token :: params := by
  induction params generalizing token done with
  | nil => simp [Scanner.flush, hne]
  | cons p params ih =>
    rw [forall_mem_cons] at h
    have hbln : Scanner.step windows ⟨token, none, done⟩ 32 = ⟨[], none, done ++ [token]⟩ := by
      cases windows <;> simp [Scanner.step, isQuoteChar, Scanner.flush, hne]
    rw [flatMap_cons, cons_append, foldl_cons, hbln, foldl_append, h.1.2, ih h.1.1 h.2]
    simp

theorem notMem_quoteToken (h : 0 ∉ token) : 0 ∉ quoteToken windows token := by
  have hesc : 0 ∉ token.flatMap escape := by
    rw [mem_flatMap]
    rintro ⟨c, hc, hmem⟩
    have hne : (0 : UInt8) ≠ c := fun h0 => h (h0 ▸ hc)
    rw [escape] at hmem
    split at hmem <;> simp [hne] at hmem
  rw [quoteToken]
  cases windows <;> split <;> simp [h, hesc]

theorem cString_build (h : ∀ t ∈ cmd.exec :: cmd.params, 0 ∉ t) :
    cString (build windows cmd) = build windows cmd := by
  rw [forall_mem_cons] at h
  refine cString_of_notMem ?_
  simp only [build, mem_append, mem_flatMap, mem_cons, not_or, not_exists, not_and]
  exact ⟨notMem_quoteToken h.1, fun p hp => ⟨by decide, notMem_quoteToken (h.2 p hp)⟩⟩

theorem parse_build (hzero : ∀ t ∈ cmd.exec :: cmd.params, 0 ∉ t)
    (h : ∀ t ∈ cmd.exec :: cmd.params, Survives windows t) : parse windows (build windows cmd) = cmd := by
  rw [forall_mem_cons] at h
  have htok : tokens windows (build windows cmd) = cmd.exec :: cmd.params := by
    rw [tokens, cString_build hzero, build, foldl_append, h.1.2, scan_params h.1.1 h.2, nil_append]
  rw [parse, htok]
  rfl

end Rebuilt

/-! ### Linux -/

/-- The backslashes in the tokens and the rest of the text: `parse` takes none away and adds none. -/
theorem count_scan (text : Bytes) (s : Scanner) :
    let t := text.foldl (Scanner.step false) s
    t.token.count 92 + (t.tokens.map (List.count 92)).sum =
      s.token.count 92 + (s.tokens.map (List.count 92)).sum + text.count 92 := by
  induction text generalizing s with
  | nil => simp
  | cons c text ih =>
    dsimp only at ih ⊢
    rw [foldl_cons, ih, Scanner.step]
    split
    · next hc =>
      have hne : c ≠ 92 := by
        rintro rfl
        simp [isQuoteChar] at hc
      simp [hne]
    · split
      · next hc =>
        have hne : c ≠ 92 := by
          rintro rfl
          simp at hc
        rw [Scanner.flush]
        split
        · simp [hne]
        · simp [hne]
          omega
      · simp only [count_append, count_cons, count_nil]
        omega

theorem count_tokens (text : Bytes) : ((tokens false text).map (List.count 92)).sum = (cString text).count 92 := by
  have h := count_scan (cString text) ⟨[], none, []⟩
  simp only [count_nil, map_nil, sum_nil, Nat.zero_add] at h
  rw [tokens, Scanner.flush]
  split
  · next hnil => rw [← h, hnil, count_nil, Nat.zero_add]
  · simp only [map_append, sum_append, map_cons, map_nil, sum_cons, sum_nil]
    omega

/-- The backslashes that `quote_token` adds. -/
def escapes (token : Bytes) : Nat := if needsQuotes false token then token.countP fun c => c == 34 || c == 92 else 0

theorem count_quoteToken (token : Bytes) : (quoteToken false token).count 92 = token.count 92 + escapes token := by
  have hesc : (token.flatMap escape).count 92 = token.count 92 + token.countP fun c => c == 34 || c == 92 := by
    induction token with
    | nil => rfl
    | cons c token ih =>
      rw [flatMap_cons, count_append, ih, countP_cons, escape]
      by_cases h : c = 92
      · simp [h]
        omega
      · by_cases h' : c = 34 <;> simp [h, h']
        omega
  rw [quoteToken, escapes]
  split
  · simp [hesc]
  · rfl

/-- Nothing in the token has to be escaped. -/
def Plain (token : Bytes) : Prop := 34 ∉ token ∧ (needsQuotes false token = true → 92 ∉ token)

theorem plain_of_escapes {token} (h : escapes token = 0) : Plain token := by
  rw [escapes] at h
  have hall : needsQuotes false token = true → ∀ c ∈ token, ¬(c = 34 ∨ c = 92) := by
    intro hnds
    rw [if_pos hnds] at h
    simpa using h
  refine ⟨fun hmem => ?_, fun hnds hmem => hall hnds 92 hmem (.inr rfl)⟩
  exact hall (any_eq_true.2 ⟨34, hmem, rfl⟩) 34 hmem (.inl rfl)

/-- What is built is read back if and only if no token has a double quote, and none that is quoted has a backslash. -/
theorem posix_rebuilt_iff (cmd : Command) (hne : ∀ t ∈ cmd.exec :: cmd.params, t ≠ [] ∧ 0 ∉ t) :
    parse false (build false cmd) = cmd ↔ ∀ t ∈ cmd.exec :: cmd.params, Plain t := by
  constructor
  · intro h
    have hzero := fun t ht => (hne t ht).2
    have hcnt := count_tokens (build false cmd)
    have htok : tokens false (build false cmd) = cmd.exec :: cmd.params := by
      cases ht : tokens false (build false cmd) with
      | nil =>
        rw [parse, ht] at h
        exact absurd (congrArg Command.exec h).symm (hne cmd.exec mem_cons_self).1
      | cons exec params =>
        rw [parse, ht] at h
        rw [← h]
        rfl
    have hbld : (build false cmd).count 92 =
        ((cmd.exec :: cmd.params).map (List.count 92)).sum + ((cmd.exec :: cmd.params).map escapes).sum := by
      rw [build, count_append, count_quoteToken, map_cons, map_cons, sum_cons, sum_cons]
      have hpar : (cmd.params.flatMap fun p => 32 :: quoteToken false p).count 92 =
          (cmd.params.map (List.count 92)).sum + (cmd.params.map escapes).sum := by
        induction cmd.params with
        | nil => rfl
        | cons p params ih =>
          rw [flatMap_cons, count_append, count_cons, count_quoteToken]
          simp
          omega
      omega
    rw [htok, cString_build hzero, hbld] at hcnt
    have hsum : ((cmd.exec :: cmd.params).map escapes).sum = 0 := by omega
    intro t ht
    exact plain_of_escapes (sum_eq_zero_iff.1 hsum _ (mem_map_of_mem ht))
  · intro h
    exact parse_build (fun t ht => (hne t ht).2) fun t ht => survives (hne t ht).1 (h t ht).1 fun _ => (h t ht).2

theorem posix_rebuilt_steam :
    parse false (build false ⟨utf8 "/opt/steam app", [utf8 "-dev"]⟩) = ⟨utf8 "/opt/steam app", [utf8 "-dev"]⟩ :=
  (posix_rebuilt_iff ⟨utf8 "/opt/steam app", [utf8 "-dev"]⟩ (by decide +kernel)).2 (by unfold Plain; decide +kernel)

theorem escaped_quote_not_read :
    parse false (build false ⟨utf8 "steam", [utf8 "a\"b"]⟩) ≠ ⟨utf8 "steam", [utf8 "a\"b"]⟩ := by
  decide +kernel

/-! ### Windows -/

inductive ParamCall where
  | ensure (key : Bytes) (value : Option Bytes)
  | remove (key : Bytes)

namespace ParamCall

def key : ParamCall → Bytes
  | ensure key _ => key
  | remove key => key

def apply (cmd : Command) : ParamCall → Command
  | ensure key value => { cmd with params := ensureParam key value cmd.params }
  | remove key => { cmd with params := removeParam key cmd.params }

/-- A key that is not empty and has no `=`, and an entry without double quotes and NUL. -/
def Proper : ParamCall → Prop
  | ensure key value => key ≠ [] ∧ 61 ∉ key ∧ 34 ∉ entry key value ∧ 0 ∉ entry key value
  | remove key => key ≠ [] ∧ 61 ∉ key ∧ 34 ∉ key ∧ 0 ∉ key

end ParamCall

def keyOf (p : Bytes) : Bytes := p.takeWhile (· ≠ 61)

theorem hasKey_iff {key p} (h : 61 ∉ key) : hasKey key p = true ↔ keyOf p = key := by
  have hall : ∀ c ∈ key, decide (c ≠ 61) = true := fun c hc => decide_eq_true fun hc' => h (hc' ▸ hc)
  simp only [hasKey, Bool.or_eq_true, decide_eq_true_eq, isPrefixOf_iff_prefix]
  constructor
  · rintro (rfl | ⟨rest, rfl⟩)
    · exact takeWhile_eq_self_iff.2 hall
    · rw [keyOf, append_assoc, takeWhile_append_of_pos hall]
      simp
  · rintro rfl
    have happ := takeWhile_append_dropWhile (p := fun c : UInt8 => decide (c ≠ 61)) (l := p)
    cases hdrop : p.dropWhile (· ≠ 61) with
    | nil =>
      rw [hdrop, append_nil] at happ
      exact .inl happ.symm
    | cons c rest =>
      have hc := head?_dropWhile_not (fun c : UInt8 => decide (c ≠ 61)) p
      rw [hdrop] at hc happ
      obtain rfl : c = 61 := by simpa using hc
      exact .inr ⟨rest, by rw [append_assoc]; exact happ⟩

/-- Tokens as `parse` makes them. -/
def Clean (token : Bytes) : Prop := token ≠ [] ∧ 34 ∉ token ∧ 0 ∉ token

theorem clean_flush {s : Scanner} (htkn : 34 ∉ s.token ∧ 0 ∉ s.token) (htok : ∀ t ∈ s.tokens, Clean t) :
    ∀ t ∈ s.flush.tokens, Clean t := by
  rw [Scanner.flush]
  split
  · exact htok
  · next hne =>
    rw [forall_mem_append, forall_mem_singleton]
    exact ⟨htok, hne, htkn⟩

theorem clean_scan {text : Bytes} (h : 0 ∉ text) {s : Scanner} (hqt : s.quote.all (· = 34) = true)
    (htkn : 34 ∉ s.token ∧ 0 ∉ s.token) (htok : ∀ t ∈ s.tokens, Clean t) :
    ∀ t ∈ (text.foldl (Scanner.step true) s).flush.tokens, Clean t := by
  induction text generalizing s with
  | nil => exact clean_flush htkn htok
  | cons c text ih =>
    rw [mem_cons, not_or] at h
    rw [foldl_cons, Scanner.step]
    split
    · next hc =>
      refine ih h.2 ?_ htkn htok
      simp only [isQuoteChar, Bool.and_eq_true] at hc
      cases s.quote <;> simp_all
    · next hc =>
      split
      · refine ih h.2 ?_ ?_ (clean_flush htkn htok) <;> rw [Scanner.flush] <;> split <;> simp_all
      · have hne : 34 ≠ c := by
          rintro rfl
          cases hq : s.quote <;> simp_all [isQuoteChar]
        refine ih h.2 hqt ?_ htok
        simp [htkn, hne, h.1]

theorem mem_apply {call : ParamCall} {p : Bytes} (h : p ∈ (call.apply cmd).params) :
    p ∈ cmd.params ∨ ∃ key value, call = .ensure key value ∧ p = entry key value := by
  cases call with
  | remove key => exact .inl (mem_filter.1 h).1
  | ensure key value =>
    obtain ⟨pre, post, hens, -, hcas⟩ := ensureParam_cases key value cmd.params
    simp only [ParamCall.apply, hens, mem_append, mem_cons] at h
    obtain ⟨rfl, rfl, -⟩ | ⟨q, -, hpar⟩ := hcas
    · grind
    · grind

/-- The call keeps the parameters of every other key. -/
theorem filter_apply {call : ParamCall} (h : call.Proper) (cmd : Command) {keys : List Bytes} (hkey : call.key ∈ keys) :
    (call.apply cmd).params.filter (keyOf · ∉ keys) = cmd.params.filter (keyOf · ∉ keys) := by
  have heql : (call.apply cmd).params.filter (!hasKey call.key ·) = cmd.params.filter (!hasKey call.key ·) := by
    cases call with
    | ensure key value => exact filter_ensureParam key value cmd.params
    | remove key => simp [ParamCall.apply, ParamCall.key, removeParam]
  have hfree : 61 ∉ call.key := by
    cases call with
    | ensure key value => exact h.2.1
    | remove key => exact h.2.1
  have hfil : ∀ params : List Bytes,
      params.filter (keyOf · ∉ keys) = (params.filter (!hasKey call.key ·)).filter (keyOf · ∉ keys) := by
    intro params
    rw [filter_filter]
    refine filter_congr fun p _ => ?_
    cases hp : hasKey call.key p with
    | false => simp
    | true => simp [(hasKey_iff hfree).1 hp, hkey]
  rw [hfil, heql, ← hfil]

theorem clean_parse {text : Bytes} (h : tokens true text ≠ []) :
    ∀ t ∈ (parse true text).exec :: (parse true text).params, Clean t := by
  have hclean : ∀ t ∈ tokens true text, Clean t :=
    clean_scan (s := ⟨[], none, []⟩) (fun hmem => by simpa using mem_takeWhile_imp hmem) rfl (by simp) (by simp)
  rw [parse]
  cases htok : tokens true text with
  | nil => exact absurd htok h
  | cons exec params => simpa [htok] using hclean

/-- Whatever the calls were, the command line that is built on Windows is read back, with every parameter of another key. -/
theorem windows_rebuilt (text : Bytes) (htokens : tokens true text ≠ []) (calls : List ParamCall)
    (hcalls : ∀ call ∈ calls, call.Proper) :
    let cmd := calls.foldl ParamCall.apply (parse true text)
    parse true (build true cmd) = cmd ∧
      cmd.params.filter (keyOf · ∉ calls.map ParamCall.key) =
        (parse true text).params.filter (keyOf · ∉ calls.map ParamCall.key) := by
  suffices h : ∀ (cmd : Command) (keys : List Bytes), (∀ t ∈ cmd.exec :: cmd.params, Clean t) →
      (∀ call ∈ calls, call.key ∈ keys) →
      (∀ t ∈ (calls.foldl ParamCall.apply cmd).exec :: (calls.foldl ParamCall.apply cmd).params, Clean t) ∧
      (calls.foldl ParamCall.apply cmd).params.filter (keyOf · ∉ keys) = cmd.params.filter (keyOf · ∉ keys) by
    obtain ⟨hclean, hfil⟩ := h (parse true text) (calls.map ParamCall.key) (clean_parse htokens)
      fun call hcall => mem_map_of_mem hcall
    refine ⟨parse_build (fun t ht => (hclean t ht).2.2) fun t ht => ?_, hfil⟩
    exact survives (hclean t ht).1 (hclean t ht).2.1 fun hlin => absurd hlin (by decide)
  induction calls with
  | nil => exact fun cmd keys hclean _ => ⟨hclean, rfl⟩
  | cons call calls ih =>
    intro cmd keys hclean hkeys
    rw [forall_mem_cons] at hcalls hkeys
    obtain ⟨hprp, hcalls⟩ := hcalls
    have hnext : ∀ t ∈ (call.apply cmd).exec :: (call.apply cmd).params, Clean t := by
      rw [forall_mem_cons] at hclean ⊢
      refine ⟨by cases call <;> exact hclean.1, fun t ht => ?_⟩
      obtain ht | ⟨key, value, rfl, rfl⟩ := mem_apply ht
      · exact hclean.2 t ht
      · refine ⟨?_, hprp.2.2⟩
        cases value with
        | none => exact hprp.1
        | some v => simp [entry]
    obtain ⟨hlast, hfil⟩ := ih hcalls (call.apply cmd) keys hnext hkeys.2
    exact ⟨hlast, hfil.trans (filter_apply hprp cmd hkeys.1)⟩

theorem windows_rebuilt_port :
    let cmd := ParamCall.apply (parse true (utf8 "steam.exe \"-name=a b\"")) (.ensure (utf8 "-port") (some (utf8 "8080")))
    parse true (build true cmd) = cmd :=
  (windows_rebuilt (utf8 "steam.exe \"-name=a b\"") (by decide +kernel) [.ensure (utf8 "-port") (some (utf8 "8080"))]
    (by simp only [forall_mem_singleton, ParamCall.Proper]; decide +kernel)).1

end CloudeLoader.CommandLine
