import CloudeLoader.Engine.HttpHooks

/-!
# Which requests are served from the disk (`http_hooks.cc`)

The browser pauses requests for the virtual hosts, and documents of the Steam hosts.
-/

namespace CloudeLoader.Engine

open JsonDoc Blocking Occurrence List

/-! ### Paused requests -/

def steamTlds : List String :=
  ["steampowered.com", "steamcommunity.com", "steamgames.com", "steam-chat.com", "steamstatic.com"]

def steamLoopback : String := "steamloopback.host"

structure FetchPattern where
  urlPattern : Bytes
  resourceType : Option String
  requestStage : String

def virtualPattern (hook : Bytes) : FetchPattern := ⟨hook ++ utf8 "*", none, "Request"⟩

def documentPattern (host : String) : FetchPattern :=
  ⟨utf8 "https://" ++ utf8 host ++ utf8 "/*", some "Document", "Response"⟩

def fetchPatterns : List FetchPattern :=
  [ftpUrl, themesUrl, legacyHookUrl, legacyVirtJsUrl, legacyVirtCssUrl].map virtualPattern ++
    documentPattern steamLoopback :: steamTlds.map fun tld => documentPattern ("*." ++ tld)

/-- The patterns of the browser: a star stands for any text, a question mark for one character. -/
def wildcardMatch : Bytes → Bytes → Bool
  | [], s => s.isEmpty
  | c :: cs, s =>
    if c = 42 then s.tails.any (wildcardMatch cs)
    else (s.head?.any fun d => c = 63 || c = d) && wildcardMatch cs s.tail

def FetchPattern.pauses (p : FetchPattern) (url : Bytes) (resourceType requestStage : String) : Bool :=
  wildcardMatch p.urlPattern url && p.resourceType.all (· = resourceType) && p.requestStage = requestStage

def isPaused (url : Bytes) (resourceType requestStage : String) : Bool :=
  fetchPatterns.any (·.pauses url resourceType requestStage)

def hasVirtualPrefix (url : Bytes) : Bool := ftpUrls.any (·.isPrefixOf url)

/-! ### Files on the disk -/

theorem isVfsRequest_iff {url} : isVfsRequest url = true ↔ ∃ addr ∈ ftpUrls, addr <:+: url := by
  simp only [isVfsRequest, any_eq_true, first_isSome_iff]

theorem hasVirtualPrefix_iff {url} : hasVirtualPrefix url = true ↔ ∃ addr ∈ ftpUrls, addr <+: url := by
  simp only [hasVirtualPrefix, any_eq_true, isPrefixOf_iff_prefix]

/-- A pattern that ends in its only star stands for what begins with the rest. -/
theorem wildcardMatch_star_iff {stem : Bytes} (h : ∀ c ∈ stem, c ≠ 42 ∧ c ≠ 63) {url} :
    wildcardMatch (stem ++ [42]) url = true ↔ stem <+: url := by
  induction stem generalizing url with
  | nil =>
    refine iff_of_true ?_ nil_prefix
    exact any_eq_true.2 ⟨[], by simp, rfl⟩
  | cons c stem ih =>
    obtain ⟨hc, hstem⟩ := forall_mem_cons.1 h
    rw [cons_append, wildcardMatch, if_neg hc.1]
    cases url with
    | nil => simp
    | cons d url => simp [hc.2, ih hstem, cons_prefix_cons]

/-- Before they are sent, the requests for the virtual hosts are paused and no others. -/
theorem isPaused_request_iff {url resourceType} : isPaused url resourceType "Request" = true ↔ hasVirtualPrefix url = true := by
  have hplain : ∀ addr ∈ ftpUrls, ∀ c ∈ addr, c ≠ 42 ∧ c ≠ 63 := by decide +kernel
  have hperm : [ftpUrl, themesUrl, legacyHookUrl, legacyVirtJsUrl, legacyVirtCssUrl].Perm ftpUrls := by decide +kernel
  have hstar : utf8 "*" = [42] := by decide +kernel
  have hvirtual : ∀ {addr}, addr ∈ ftpUrls → ((virtualPattern addr).pauses url resourceType "Request" = true ↔ addr <+: url) :=
    fun haddr => by simpa [FetchPattern.pauses, virtualPattern, hstar] using wildcardMatch_star_iff (hplain _ haddr)
  rw [hasVirtualPrefix_iff, isPaused, any_eq_true]
  constructor
  · rintro ⟨p, hp, hpauses⟩
    rcases mem_append.1 hp with hp | hp
    · obtain ⟨addr, haddr, rfl⟩ := mem_map.1 hp
      exact ⟨addr, hperm.subset haddr, (hvirtual (hperm.subset haddr)).1 hpauses⟩
    · -- documents are paused when their response has come
      have hstage : p.requestStage = "Response" := by
        rcases mem_cons.1 hp with rfl | hp
        · rfl
        · obtain ⟨tld, -, rfl⟩ := mem_map.1 hp
          rfl
      simp [FetchPattern.pauses, hstage] at hpauses
  · rintro ⟨addr, haddr, hpre⟩
    exact ⟨_, mem_append_left _ (mem_map_of_mem (hperm.mem_iff.2 haddr)), (hvirtual haddr).2 hpre⟩

namespace NetworkHookCtl

variable (ctl : NetworkHookCtl) {message request : Json} {url : String} {path bytes : Bytes}

def withFile (path bytes : Bytes) : NetworkHookCtl :=
  { ctl with
    opens := Function.update ctl.opens path true
    readStream := Function.update ctl.readStream path (.ok bytes)
    readFileBytes := Function.update ctl.readFileBytes path (.ok bytes) }

/-- The page gets the file: the body of the response is the content, whatever it is. -/
def ReturnsFile (message : Json) (path : Bytes) : Prop :=
  ∀ bytes, ∃ requestId code headers phrase body,
    .fulfillRequest requestId code headers phrase body ∈
      ((ctl.withFile path bytes).requestPaused message ⟨[], []⟩).1.sent ∧
      (body = base64Encode bytes ∨ body = base64EncodeVector bytes)

/-- The virtual files are files of the loader, under the address of the first virtual host. -/
def InternalUnderFtp : Prop := ∀ {url : Bytes} {content}, ctl.internalFtpCallData url = some content → ftpUrl <+: url

theorem requestPaused_eq (hreq : message.field? "request" = some request) (hurl : request.field? "url" = some (.str url)) :
    ctl.requestPaused message = if isVfsRequest (utf8 url) then ctl.vfsRequestHandler message (utf8 url)
      else ctl.mimeDocRequestHandler message (utf8 url) := by
  unfold requestPaused Handler.member
  rw [if_pos (Json.isObject_of_field hreq), hreq]
  show (if request.isObject then _ else _ : Handler Json) >>= _ = _
  rw [if_pos (Json.isObject_of_field hurl), hurl]
  rfl

theorem fulfill_eq {id} (hid : message.field? "requestId" = some id) {status}
    (hstt : isUtf8 status.2 = true) (fileType : FileType) (content : String) :
    fulfill message fileType status content = Blocking.modify fun s => { s with sent := s.sent ++ [.fulfillRequest id status.1
      (makeHeaders [("Access-Control-Allow-Origin", "*"), ("Content-Type", getMimeStr fileType)]) status.2 content] } := by
  unfold fulfill Handler.member
  rw [if_pos (Json.isObject_of_field hid), hid]
  exact if_pos hstt

theorem vfsRequestHandler_withFile {u} (bytes : Bytes) (hint : ctl.internalFtpCallData u = none)
    (hid : message.contains "requestId" = true) :
    ∃ requestId headers body, ((ctl.withFile (ctl.pathFromUrl u) bytes).vfsRequestHandler message u ⟨[], []⟩).1.sent =
        [.fulfillRequest requestId 200 headers (utf8 "OK cloude") body] ∧
      (body = base64Encode bytes ∨ body = base64EncodeVector bytes) := by
  obtain ⟨id, hid⟩ := Option.isSome_iff_exists.1 hid
  have hpath : (ctl.withFile (ctl.pathFromUrl u) bytes).pathFromUrl u = ctl.pathFromUrl u := rfl
  have hstt : (ctl.withFile (ctl.pathFromUrl u) bytes).diskStatus (ctl.pathFromUrl u) = (200, utf8 "OK cloude") := by
    simp [diskStatus, withFile]
  have hnone : (ctl.withFile (ctl.pathFromUrl u) bytes).internalFtpCallData u = none := hint
  have hcon : ∃ body, (body = base64Encode bytes ∨ body = base64EncodeVector bytes) ∧
      (ctl.withFile (ctl.pathFromUrl u) bytes).diskContent (ctl.pathFromUrl u) (getFileType (ctl.pathFromUrl u)) =
        pure body := by
    by_cases hbin : isBinFile (getFileType (ctl.pathFromUrl u)) = true
    · exact ⟨_, .inr rfl, by simp [diskContent, hbin, withFile]⟩
    · refine ⟨_, .inl rfl, ?_⟩
      simp only [diskContent, hbin, withFile, Function.update_self]
      rfl
  obtain ⟨body, hbody, hcon⟩ := hcon
  unfold vfsRequestHandler
  have hok : isUtf8 ((200, utf8 "OK cloude") : Int × Bytes).2 = true := isUtf8_utf8 _
  simp only [hnone, hpath, hstt, hcon, fulfill_eq hid hok]
  exact ⟨id, _, body, rfl, hbody⟩

theorem returnsFile_of_vfs (hreq : message.field? "request" = some request) (hurl : request.field? "url" = some (.str url))
    (hid : message.contains "requestId" = true) (hvfs : isVfsRequest (utf8 url) = true)
    (hint : ctl.internalFtpCallData (utf8 url) = none) : ctl.ReturnsFile message (ctl.pathFromUrl (utf8 url)) := by
  intro bytes
  obtain ⟨requestId, headers, body, hsent, hbody⟩ := ctl.vfsRequestHandler_withFile bytes hint hid
  refine ⟨requestId, 200, headers, utf8 "OK cloude", body, ?_, hbody⟩
  rw [requestPaused_eq _ hreq hurl, if_pos hvfs, hsent]
  exact mem_singleton_self _

theorem not_returnsFile_of_document (hreq : message.field? "request" = some request)
    (hurl : request.field? "url" = some (.str url)) (hvfs : isVfsRequest (utf8 url) = false) (path : Bytes) :
    ¬ctl.ReturnsFile message path := by
  intro hfile
  have hsame : ∀ bytes, (ctl.withFile path bytes).requestPaused message = ctl.mimeDocRequestHandler message (utf8 url) := by
    intro bytes
    rw [requestPaused_eq _ hreq hurl, hvfs]
    rfl
  obtain ⟨_, _, _, _, body, hsent, hbody⟩ := hfile []
  obtain ⟨_, _, _, _, body', hsent', hbody'⟩ := hfile [65]
  rw [hsame, ← hsame []] at hsent hsent'
  have hone := ((ctl.withFile path []).requestPaused_releases_iff message).1
  have hmem := (mem_filter (p := Sent.isRelease)).2 ⟨hsent, rfl⟩
  have hmem' := (mem_filter (p := Sent.isRelease)).2 ⟨hsent', rfl⟩
  -- there is one release, so it is the same message for both contents
  obtain ⟨m, hm⟩ := length_eq_one_iff.1 (Nat.le_antisymm hone (length_pos_of_mem hmem))
  rw [hm, mem_singleton] at hmem hmem'
  cases hmem.trans hmem'.symm
  have hemp : body = "" := by
    rcases hbody with rfl | rfl <;> decide +kernel
  rw [hemp] at hbody'
  revert hbody'
  decide +kernel

/-- For every URL of a request: a file is returned only for URLs of the virtual hosts, and the other requests are handled as
documents, if and only if the URL does not contain the address of a virtual host behind its beginning. -/
theorem serves_virtual_only_iff (hinternal : ctl.InternalUnderFtp) (hrequest : message.field? "request" = some request)
    (hurl : request.field? "url" = some (.str url)) (hid : message.contains "requestId" = true) :
    ((∀ path, ctl.ReturnsFile message path → hasVirtualPrefix (utf8 url) = true) ∧
        (hasVirtualPrefix (utf8 url) = false →
          ctl.requestPaused message = ctl.mimeDocRequestHandler message (utf8 url))) ↔
      ((∃ addr ∈ ftpUrls, addr <:+: utf8 url) → ∃ addr ∈ ftpUrls, addr <+: utf8 url) := by
  rw [← isVfsRequest_iff, ← hasVirtualPrefix_iff]
  constructor
  · rintro ⟨hfile, -⟩ hvfs
    by_contra hno
    have hnone : ctl.internalFtpCallData (utf8 url) = none := by
      rw [Option.eq_none_iff_forall_ne_some]
      intro content hcon
      exact hno (hasVirtualPrefix_iff.2 ⟨ftpUrl, by simp [ftpUrls], hinternal hcon⟩)
    exact hno (hfile _ (ctl.returnsFile_of_vfs hrequest hurl hid hvfs hnone))
  · intro himp
    have hdoc : hasVirtualPrefix (utf8 url) = false → isVfsRequest (utf8 url) = false := by
      intro hno
      by_contra hvfs
      rw [himp (by simpa using hvfs)] at hno
      cases hno
    constructor
    · intro path hfile
      by_contra hno
      exact ctl.not_returnsFile_of_document hrequest hurl (hdoc (by simpa using hno)) path hfile
    · intro hno
      rw [requestPaused_eq _ hrequest hurl, hdoc hno]
      rfl

theorem serves_virtual_only_storePage :
    (∀ path, bodyTimeout.ReturnsFile storePage path → hasVirtualPrefix (utf8 "https://store.steampowered.com/") = true) ∧
      (hasVirtualPrefix (utf8 "https://store.steampowered.com/") = false →
        bodyTimeout.requestPaused storePage =
          bodyTimeout.mimeDocRequestHandler storePage (utf8 "https://store.steampowered.com/")) := by
  refine (serves_virtual_only_iff bodyTimeout ?_ rfl rfl rfl).2 ?_
  · intro u content hcon
    cases hcon
  · intro hvfs
    revert hvfs
    decide +kernel

def queryUrl : String := "https://store.steampowered.com/?u=https://cloude.host/v1/themes/dark/theme.css"

def queryPage : Json :=
  .obj [("requestId", .str "interception-job-2.0"), ("request", .obj [("url", .str queryUrl)]),
    ("responseStatusCode", .int 200)]

theorem queryPage_replaced :
    isPaused (utf8 queryUrl) "Document" "Response" = true ∧ hasVirtualPrefix (utf8 queryUrl) = false ∧
      bodyTimeout.ReturnsFile queryPage (utf8 "/opt/cloude/themes/dark/theme.css") := by
  refine ⟨by decide +kernel, by decide +kernel, ?_⟩
  have hpath : bodyTimeout.pathFromUrl (utf8 queryUrl) = utf8 "/opt/cloude/themes/dark/theme.css" := by decide +kernel
  rw [← hpath]
  exact bodyTimeout.returnsFile_of_vfs rfl rfl rfl (by decide +kernel) rfl

end NetworkHookCtl

end CloudeLoader.Engine
