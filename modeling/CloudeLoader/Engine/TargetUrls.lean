import CloudeLoader.Engine.VirtualFiles

/-!
# Which pages get the backend (`plugin_webkit_world_mgr.cc`)

`is_valid_target_url` decides if the backend is exposed to a page.  It admits pages of Steam, which are recognised by
`.<domain>/` anywhere in the URL, and pages for which a hook is registered.
-/

namespace CloudeLoader.Engine

open List Occurrence

/-! ### The code -/

def checkoutPattern : UrlPattern := fun url =>
  .ok ((utf8 "https://checkout.steampowered.com/").isPrefixOf url &&
    (url.drop (utf8 "https://checkout.steampowered.com/").length).all fun c => c != 10 && c != 13)

def jsHookBlacklist : List UrlPattern := [checkoutPattern]

def domainWord (tld : String) : Bytes := utf8 "." ++ utf8 tld ++ utf8 "/"

def isSteamOwnedUrl (url : Bytes) : Bool :=
  first (utf8 "https://" ++ utf8 steamLoopback ++ utf8 "/") url == some 0 ||
    steamTlds.any fun tld => (first (domainWord tld) url).isSome

def NetworkHookCtl.isValidTargetUrl (ctl : NetworkHookCtl) (url : Bytes) : Except String Bool :=
  if url.isEmpty then .ok false
  else if first (utf8 "http://") url != some 0 && first (utf8 "https://") url != some 0 then .ok false
  else if first (utf8 "https://steamloopback.host/") url == some 0 then .ok false
  else
    match doNotHook url jsHookBlacklist with
    | .error what => .error what
    | .ok true => .ok false
    | .ok false =>
      if isSteamOwnedUrl url then .ok true else doNotHook url (ctl.hookList.map HookItem.urlPattern)

/-! ### Hosts -/

def isWebUrl (url : Bytes) : Bool := (utf8 "http://").isPrefixOf url || (utf8 "https://").isPrefixOf url

def afterScheme (url : Bytes) : Bytes :=
  if (utf8 "http://").isPrefixOf url then url.drop (utf8 "http://").length else url.drop (utf8 "https://").length

def inAuthority (c : UInt8) : Bool := c != 47 && c != 63 && c != 35

def authority (url : Bytes) : Bytes := (afterScheme url).takeWhile inAuthority

def afterAuthority (url : Bytes) : Bytes := (afterScheme url).dropWhile inAuthority

def dropUserInfo (auth : Bytes) : Bytes := (auth.reverse.takeWhile (· != 64)).reverse

def dropPort (host : Bytes) : Bytes :=
  match host.reverse.dropWhile fun c => 48 ≤ c && c ≤ 57 with
  | [] => host
  | c :: rest => if c = 58 then rest.reverse else host

def hostOf (url : Bytes) : Bytes := dropPort (dropUserInfo (authority url))

def IsSteamHost (host : Bytes) : Prop := ∃ tld ∈ steamTlds, utf8 "." ++ utf8 tld <:+ host

def isBlacklisted (url : Bytes) : Prop := ∃ pattern ∈ jsHookBlacklist, pattern url = .ok true

section Words

variable {w a h url rest : Bytes}

/-- A word with a dot at its start and an `m` at its end that has none of the characters that divide a URL. -/
structure IsDomain (w : Bytes) : Prop where
  head : w.head? = some 46
  last : w.getLast? = some 109
  plain : ∀ c ∈ w, c ≠ 47 ∧ c ≠ 63 ∧ c ≠ 35 ∧ c ≠ 64

theorem isDomain_of_mem {tld} (h : tld ∈ steamTlds) : IsDomain (utf8 "." ++ utf8 tld) := by
  have hall : ∀ tld ∈ steamTlds, (utf8 "." ++ utf8 tld).head? = some 46 ∧ (utf8 "." ++ utf8 tld).getLast? = some 109 ∧
      (utf8 "." ++ utf8 tld).all (fun c => c != 47 && c != 63 && c != 35 && c != 64) = true := by decide +kernel
  obtain ⟨hhead, hlast, hpln⟩ := hall tld h
  refine ⟨hhead, hlast, fun c hc => ?_⟩
  simpa [and_assoc] using all_eq_true.1 hpln c hc

theorem getLast?_of_suffix {c} (hw : w.getLast? = some c) (h : w <:+ a) : a.getLast? = some c := by
  obtain ⟨s, rfl⟩ := h
  rw [getLast?_append, hw]
  rfl

theorem suffix_dropUserInfo (hw : IsDomain w) (h : w <:+ a) : w <:+ dropUserInfo a := by
  obtain ⟨s, rfl⟩ := h
  have hall : ∀ c ∈ w.reverse, (c != 64) = true := fun c hc => by
    simpa using (hw.plain c (mem_reverse.1 hc)).2.2.2
  rw [dropUserInfo, reverse_append, takeWhile_append_of_pos hall, reverse_append, reverse_reverse]
  exact suffix_append _ w

theorem dropPort_of_last (h : a.getLast? = some 109) : dropPort a = a := by
  obtain ⟨t, rfl⟩ := getLast?_eq_some_iff.1 h
  rw [dropPort, reverse_append, reverse_singleton, singleton_append, dropWhile_cons_of_neg (by decide)]
  exact if_neg (by decide)

theorem suffix_hostOf (hw : IsDomain w) (h : w <:+ authority url) : w <:+ hostOf url := by
  have huser := suffix_dropUserInfo hw h
  rwa [hostOf, dropPort_of_last (getLast?_of_suffix hw.last huser)]

theorem eq_of_isWebUrl (h : isWebUrl url = true) :
    ∃ s, (s = utf8 "http:" ∨ s = utf8 "https:") ∧ url = s ++ 47 :: 47 :: afterScheme url := by
  unfold isWebUrl at h
  unfold afterScheme
  by_cases hhttp : (utf8 "http://").isPrefixOf url = true
  · obtain ⟨rest, rfl⟩ := isPrefixOf_iff_prefix.1 hhttp
    refine ⟨utf8 "http:", .inl rfl, ?_⟩
    rw [if_pos hhttp, drop_left]
    have hspl : utf8 "http://" = utf8 "http:" ++ [47, 47] := by decide
    rw [hspl, append_assoc]
    rfl
  · rw [Bool.not_eq_true] at hhttp
    rw [hhttp, Bool.false_or] at h
    obtain ⟨rest, rfl⟩ := isPrefixOf_iff_prefix.1 h
    refine ⟨utf8 "https:", .inr rfl, ?_⟩
    rw [hhttp, if_neg Bool.false_ne_true, drop_left]
    have hspl : utf8 "https://" = utf8 "https:" ++ [47, 47] := by decide
    rw [hspl, append_assoc]
    rfl

theorem infix_afterScheme_iff (hw : IsDomain w) (h : isWebUrl url = true) :
    w ++ [47] <:+: url ↔ w ++ [47] <:+: afterScheme url := by
  obtain ⟨s, hs, hurl⟩ := eq_of_isWebUrl h
  have hsls : 47 ∉ s ∧ s.getLast? ≠ some 109 := by
    rcases hs with rfl | rfl
    · exact ⟨notMem_of_all (by decide), by decide⟩
    · exact ⟨notMem_of_all (by decide), by decide⟩
  have hhead : ∀ l, ¬ w ++ [47] <+: 47 :: l := by
    rintro l ⟨u, hu⟩
    have hfir := congrArg List.head? hu
    rw [append_assoc, head?_append, hw.head] at hfir
    cases hfir
  conv_lhs => rw [hurl]
  rw [Occurrence.infix_append_iff_of_ending hsls.1, infix_cons_iff, infix_cons_iff, or_iff_right (hhead _),
    or_iff_right (hhead _), or_iff_right]
  · rintro ⟨hsuf, -⟩
    exact hsls.2 (getLast?_of_suffix hw.last hsuf)
  · rintro x ⟨⟩ hmem
    exact (hw.plain 47 hmem).1 rfl

theorem infix_url_iff (hw : IsDomain w) (h : isWebUrl url = true) :
    w ++ [47] <:+: url ↔
      (w <:+ authority url ∧ (afterAuthority url).head? = some 47) ∨ w ++ [47] <:+: afterAuthority url := by
  rw [infix_afterScheme_iff hw h]
  conv_lhs => rw [← @List.takeWhile_append_dropWhile _ inAuthority (afterScheme url)]
  refine Occurrence.infix_append_iff_of_ending ?_ ?_
  · intro hmem
    exact absurd (mem_takeWhile_imp hmem) (by decide)
  · intro x hx hmem
    have hend := head?_dropWhile_not inAuthority (afterScheme url)
    rw [hx] at hend
    obtain ⟨hsls, hqry, hfrg, -⟩ := hw.plain x hmem
    exact absurd hend (by simp [inAuthority, hsls, hqry, hfrg])

end Words

/-! ### The pages that are admitted -/

theorem doNotHook_of_forall {url patterns} (h : ∀ pattern ∈ patterns, pattern url = .ok false) :
    doNotHook url patterns = .ok false := by
  induction patterns with
  | nil => rfl
  | cons pattern patterns ih =>
    rw [doNotHook, h pattern mem_cons_self]
    exact ih fun p hp => h p (mem_cons_of_mem pattern hp)

theorem doNotHook_jsHookBlacklist (url : Bytes) :
    (doNotHook url jsHookBlacklist = .ok true ∧ isBlacklisted url) ∨
      (doNotHook url jsHookBlacklist = .ok false ∧ ¬ isBlacklisted url) := by
  obtain ⟨b, hb⟩ : ∃ b, checkoutPattern url = .ok b := ⟨_, rfl⟩
  simp only [isBlacklisted, jsHookBlacklist, mem_singleton, exists_eq_left, doNotHook, hb]
  cases b <;> simp

section Admission

variable {ctl : NetworkHookCtl} {url : Bytes}

theorem isValidTargetUrl_iff (hweb : isWebUrl url = true) (hno : ∀ hook ∈ ctl.hookList, hook.urlPattern url = .ok false) :
    ctl.isValidTargetUrl url = .ok true ↔
      ¬ utf8 "https://steamloopback.host/" <+: url ∧ ¬ isBlacklisted url ∧
        ∃ tld ∈ steamTlds, utf8 "." ++ utf8 tld ++ [47] <:+: url := by
  have hemp : url.isEmpty = false := by
    cases url with
    | nil => exact absurd hweb (by decide)
    | cons c url => rfl
  have hsch : (first (utf8 "http://") url != some 0 && first (utf8 "https://") url != some 0) = false := by
    rw [isWebUrl, Bool.or_eq_true, isPrefixOf_iff_prefix, isPrefixOf_iff_prefix, ← first_eq_zero_iff,
      ← first_eq_zero_iff] at hweb
    rcases hweb with h | h <;> simp [h]
  have hhks : doNotHook url (ctl.hookList.map HookItem.urlPattern) = .ok false :=
    doNotHook_of_forall (forall_mem_map.2 hno)
  have hlpb : utf8 "https://" ++ utf8 steamLoopback ++ utf8 "/" = utf8 "https://steamloopback.host/" := by decide +kernel
  unfold NetworkHookCtl.isValidTargetUrl isSteamOwnedUrl
  rw [hemp, hsch, hlpb, hhks]
  simp only [Bool.false_eq_true, if_false]
  by_cases hloop : utf8 "https://steamloopback.host/" <+: url
  · simp [first_eq_zero_iff.2 hloop, hloop]
  · have hfind : (first (utf8 "https://steamloopback.host/") url == some 0) = false := by
      rw [beq_eq_false_iff_ne]
      exact fun heq => hloop (first_eq_zero_iff.1 heq)
    rw [hfind, if_neg Bool.false_ne_true, Bool.false_or]
    rcases doNotHook_jsHookBlacklist url with ⟨hmat, hblc⟩ | ⟨hmat, hblc⟩
    · simp [hmat, hblc]
    · simp only [hmat, hblc, hloop, not_false_eq_true, true_and]
      have hany : (steamTlds.any fun tld => (first (domainWord tld) url).isSome) = true ↔
          ∃ tld ∈ steamTlds, utf8 "." ++ utf8 tld ++ [47] <:+: url := by
        simp only [any_eq_true, first_isSome_iff, domainWord]
        rfl
      rw [← hany]
      cases (steamTlds.any fun tld => (first (domainWord tld) url).isSome) <;> simp

/-- A page without a hook that is admitted is one of Steam, if and only if no domain of Steam with a slash stands behind its
host, or the host is one of Steam, or the page is not admitted anyway. -/
theorem onlySteam_iff (hweb : isWebUrl url = true) (hno : ∀ hook ∈ ctl.hookList, hook.urlPattern url = .ok false) :
    (ctl.isValidTargetUrl url = .ok true → IsSteamHost (hostOf url) ∧ ¬ isBlacklisted url) ↔
      (∀ tld ∈ steamTlds, ¬ utf8 "." ++ utf8 tld ++ [47] <:+: afterAuthority url) ∨ IsSteamHost (hostOf url) ∨
        isBlacklisted url ∨ utf8 "https://steamloopback.host/" <+: url := by
  rw [isValidTargetUrl_iff hweb hno]
  constructor
  · intro hsafe
    by_cases hloop : utf8 "https://steamloopback.host/" <+: url
    · exact .inr (.inr (.inr hloop))
    by_cases hblc : isBlacklisted url
    · exact .inr (.inr (.inl hblc))
    by_cases hhost : IsSteamHost (hostOf url)
    · exact .inr (.inl hhost)
    refine .inl fun tld htld hin => hhost ?_
    exact (hsafe ⟨hloop, hblc, tld, htld, (infix_url_iff (isDomain_of_mem htld) hweb).2 (.inr hin)⟩).1
  · rintro hcond ⟨hloop, hblc, tld, htld, hin⟩
    refine ⟨?_, hblc⟩
    rcases hcond with hbeh | hhost | hblc' | hloop'
    · rcases (infix_url_iff (isDomain_of_mem htld) hweb).1 hin with ⟨hend, -⟩ | hin
      · exact ⟨tld, htld, suffix_hostOf (isDomain_of_mem htld) hend⟩
      · exact absurd hin (hbeh tld htld)
    · exact hhost
    · exact absurd hblc' hblc
    · exact absurd hloop' hloop

end Admission

def hookless : NetworkHookCtl := { NetworkHookCtl.bodyTimeout with hookList := [] }

theorem onlySteam_store :
    hookless.isValidTargetUrl (utf8 "https://store.steampowered.com/app/440") = .ok true ∧
      IsSteamHost (hostOf (utf8 "https://store.steampowered.com/app/440")) ∧
        ¬ isBlacklisted (utf8 "https://store.steampowered.com/app/440") := by
  have hval : hookless.isValidTargetUrl (utf8 "https://store.steampowered.com/app/440") = .ok true := by decide +kernel
  have hhost : utf8 "." ++ utf8 "steampowered.com" <:+ hostOf (utf8 "https://store.steampowered.com/app/440") := by
    decide +kernel
  exact ⟨hval, (@onlySteam_iff hookless _ (by decide +kernel) (by simp [hookless])).2
    (.inr (.inl ⟨_, mem_cons_self, hhost⟩)) hval⟩

theorem path_taken_for_host :
    isWebUrl (utf8 "https://example.com/.steampowered.com/") = true ∧ hookless.hookList = [] ∧
      ¬ (hookless.isValidTargetUrl (utf8 "https://example.com/.steampowered.com/") = .ok true →
        IsSteamHost (hostOf (utf8 "https://example.com/.steampowered.com/")) ∧
          ¬ isBlacklisted (utf8 "https://example.com/.steampowered.com/")) := by
  have hval : hookless.isValidTargetUrl (utf8 "https://example.com/.steampowered.com/") = .ok true := by decide +kernel
  have hhost : ¬ ∃ tld ∈ steamTlds, utf8 "." ++ utf8 tld <:+ hostOf (utf8 "https://example.com/.steampowered.com/") := by
    decide +kernel
  exact ⟨by decide +kernel, rfl, fun hsafe => hhost (hsafe hval).1⟩

end CloudeLoader.Engine
