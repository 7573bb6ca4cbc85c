import CloudeLoader.Engine.Encoding
import CloudeLoader.Lib.Blocking
import CloudeLoader.Lib.JsonDoc
import CloudeLoader.Lib.Occurrence

/-!
# Paused network requests (`http_hooks.cc`)

The browser pauses a request and sends `Fetch.requestPaused`.  The request stays paused until it is released, with
`Fetch.fulfillRequest` or `Fetch.continueResponse`.  The handler has many exits that release it.
-/

namespace CloudeLoader.Engine

open JsonDoc Blocking
open Occurrence (first)

/-! ### Files -/

inductive FileType
  | css | js | json | py | ttf | otf | woff | woff2 | png | jpeg | jpg | gif | webp | svg | html | unknown
  deriving DecidableEq

def fileTypes : List (FileType × String × String × Bool) :=
  [(.css, ".css", "text/css", false), (.js, ".js", "application/javascript", false),
    (.json, ".json", "application/json", false), (.py, ".py", "text/x-python", false),
    (.ttf, ".ttf", "font/ttf", true), (.otf, ".otf", "font/otf", true), (.woff, ".woff", "font/woff", true),
    (.woff2, ".woff2", "font/woff2", true), (.png, ".png", "image/png", true), (.jpeg, ".jpeg", "image/jpeg", true),
    (.jpg, ".jpg", "image/jpeg", true), (.gif, ".gif", "image/gif", true), (.webp, ".webp", "image/webp", true),
    (.svg, ".svg", "image/svg+xml", true), (.html, ".html", "text/html", false)]

def extension (path : Bytes) : Bytes :=
  let name := (path.reverse.takeWhile (· ≠ 47)).reverse
  let ext := (name.reverse.takeWhile (· ≠ 46)).reverse
  if 46 ∉ name ∨ ext.length + 1 = name.length ∨ name = [46, 46] then [] else 46 :: ext

def getFileType (path : Bytes) : FileType :=
  match fileTypes.find? fun t => utf8 t.2.1 = extension path with
  | some t => t.1
  | none => .unknown

def getMimeStr (type : FileType) : String :=
  match fileTypes.find? fun t => t.1 = type with
  | some t => t.2.2.1
  | none => "text/plain"

def isBinFile (type : FileType) : Bool :=
  match fileTypes.find? fun t => t.1 = type with
  | some t => t.2.2.2
  | none => false

def joinPath (a b : Bytes) : Bytes :=
  if b.head? = some 47 then b else if a.isEmpty ∨ a.getLast? = some 47 then a ++ b else a ++ 47 :: b

/-! ### What the handler works with -/

inductive TagTypes
  | stylesheet
  | javascript
  deriving DecidableEq

/-- `std::regex_match` with a pattern: if it matches, or what is thrown. -/
abbrev UrlPattern := Bytes → Except String Bool

structure HookItem where
  path : Bytes
  urlPattern : UrlPattern
  type : TagTypes

structure ProcessedHooks where
  css : Bytes
  preloads : Bytes
  scripts : Bytes

/-- The surroundings of the handler: the hooks, the virtual files, the disk, and what comes of `Fetch.getResponseBody`.  What
can throw is an `Except`. -/
structure NetworkHookCtl where
  hookList : List HookItem
  dynamicCssProvider : Option (Except String (Bytes × Bytes))
  hookBlacklist : List UrlPattern
  internalFtpCallData : Bytes → Option (Except String Bytes)
  cloudePath : Bytes
  opens : Bytes → Bool
  readStream : Bytes → Except String Bytes
  readFileBytes : Bytes → Except String Bytes
  responseBody : Except String Json

inductive Sent
  | fulfillRequest (requestId : Json) (responseCode : Int) (responseHeaders : Json) (responsePhrase : Bytes) (body : String)
  | continueResponse (requestId : Json)
  | getResponseBody (requestId : Json)

def Sent.isRelease : Sent → Bool
  | .fulfillRequest .. => true
  | .continueResponse _ => true
  | .getResponseBody _ => false

def Sent.requestId : Sent → Json
  | .fulfillRequest requestId .. => requestId
  | .continueResponse requestId => requestId
  | .getResponseBody requestId => requestId

def Sent.isText : Sent → Bool
  | .fulfillRequest _ _ _ responsePhrase _ => isUtf8 responsePhrase
  | _ => true

structure HookState where
  sent : List Sent
  errors : List String

abbrev Handler := Blocking HookState

namespace Handler

def throw {α : Type} (what : String) : Handler α := do
  modify fun s => { s with errors := s.errors ++ [what] }
  block

def ofExcept {α : Type} : Except String α → Handler α
  | .ok a => pure a
  | .error what => throw what

def ofJson {α : Type} : Except JsonError α → Handler α
  | .ok a => pure a
  | .error _ => throw "type_error"

/-- `operator[]` of a document that is `const`.  For a member that is not there its behaviour is undefined; here the handler
stops. -/
def member (j : Json) (key : String) : Handler Json :=
  if j.isObject then
    match j.field? key with
    | some v => pure v
    | none => block
  else throw "type_error"

def sendHost (m : Sent) : Handler Unit :=
  if m.isText then modify fun s => { s with sent := s.sent ++ [m] } else throw "invalid UTF-8 byte"

end Handler

/-! ### URLs -/

def ftpUrl : Bytes := utf8 "https://cloude.ftp/"
def themesUrl : Bytes := utf8 "https://cloude.host/v1/themes/"
def legacyHookUrl : Bytes := utf8 "https://pseudo.cloude.app/"
def legacyVirtJsUrl : Bytes := utf8 "https://js.cloude.app/"
def legacyVirtCssUrl : Bytes := utf8 "https://css.cloude.app/"

def ftpUrls : List Bytes := [ftpUrl, themesUrl, legacyVirtJsUrl, legacyVirtCssUrl, legacyHookUrl]

def isVfsRequest (url : Bytes) : Bool := ftpUrls.any fun addr => (first addr url).isSome

namespace ProcessedHooks

def addStylesheet (hooks : ProcessedHooks) (href : Bytes) : ProcessedHooks :=
  { hooks with css := hooks.css ++ utf8 "<link rel=\"stylesheet\" href=\"" ++ href ++ utf8 "\">\n" }

def addScriptModule (hooks : ProcessedHooks) (href : Bytes) : ProcessedHooks :=
  { hooks with
    preloads := hooks.preloads ++ utf8 "<link rel=\"modulepreload\" href=\"" ++ href ++
      utf8 "\" fetchpriority=\"high\">\n"
    scripts := hooks.scripts ++ utf8 "<script type=\"module\" src=\"" ++ href ++ utf8 "\"></script>\n" }

def addInlineStyle (hooks : ProcessedHooks) (id : String) (css : Bytes) : ProcessedHooks :=
  { hooks with css := hooks.css ++ utf8 "<style id=\"" ++ utf8 id ++ utf8 "\">" ++ css ++ utf8 "</style>\n" }

def empty (hooks : ProcessedHooks) : Bool := hooks.css.isEmpty && hooks.preloads.isEmpty && hooks.scripts.isEmpty

end ProcessedHooks

def injectIntoDocumentHead (original content : Bytes) : Bytes :=
  match first (utf8 "</head>") original with
  | none => original
  | some headPos => original.take headPos ++ content ++ original.drop headPos

def isRedirect (statusCode : Int) : Bool := statusCode ∈ [303, 301, 302, 307, 308]

def doNotHook (url : Bytes) : List UrlPattern → Except String Bool
  | [] => .ok false
  | pattern :: rest =>
    match pattern url with
    | .error what => .error what
    | .ok true => .ok true
    | .ok false => doNotHook url rest

def makeHeaders (headers : List (String × String)) : Json :=
  .arr (headers.map fun h => .obj [("name", .str h.1), ("value", .str h.2)])

def decodedBody (response : Json) : Except JsonError Bytes :=
  match response.value Json.getString "body" "" with
  | .error e => .error e
  | .ok body =>
    match response.value Json.getBool "base64Encoded" false with
    | .error e => .error e
    | .ok isBase64 => .ok (if isBase64 then base64Decode body else utf8 body)

namespace NetworkHookCtl

variable (ctl : NetworkHookCtl)

def pathFromUrl (url : Bytes) : Bytes :=
  match first themesUrl url with
  | some pos =>
    let relativePath := (url.drop (pos + themesUrl.length)).takeWhile (· ≠ 63)
    joinPath (joinPath ctl.cloudePath (utf8 "themes")) (decodeUrl relativePath)
  | none =>
    match ftpUrls.findSome? fun addr => (first addr url).map (addr, ·) with
    | some (addr, pos) => getPathFromUrl (url.take pos ++ url.drop (pos + addr.length))
    | none => getPathFromUrl url

def collectHooks (url : Bytes) : List HookItem → ProcessedHooks → Bool → Except String (ProcessedHooks × Bool)
  | [], result, anyHookMatched => .ok (result, anyHookMatched)
  | hook :: rest, result, anyHookMatched =>
    match hook.urlPattern url with
    | .error what => .error what
    | .ok false => collectHooks url rest result anyHookMatched
    | .ok true =>
      let href := themesUrl ++ encodeUrl hook.path
      match hook.type with
      | .stylesheet => collectHooks url rest (result.addStylesheet href) true
      | .javascript => collectHooks url rest (result.addScriptModule href) true

def applyUserWebkitHooks (url : Bytes) : Except String ProcessedHooks :=
  match collectHooks url ctl.hookList ⟨[], [], []⟩ false with
  | .error what => .error what
  | .ok (result, anyHookMatched) =>
    match anyHookMatched, ctl.dynamicCssProvider with
    | true, some (.error what) => .error what
    | true, some (.ok (rootColors, sliderCss)) =>
      let result := if rootColors.isEmpty then result else result.addInlineStyle "RootColors" rootColors
      .ok (if sliderCss.isEmpty then result else result.addInlineStyle "CloudeSliderConditions" sliderCss)
    | _, _ => .ok result

def diskStatus (path : Bytes) : Int × Bytes :=
  if ctl.opens path then (200, utf8 "OK cloude") else (404, utf8 "cloude couldn't read " ++ path)

open CloudeLoader.Engine.Handler

def diskContent (path : Bytes) (fileType : FileType) : Handler String :=
  if isBinFile fileType then
    match ctl.readFileBytes path with
    | .ok bytes => pure (base64EncodeVector bytes)
    | .error what => do
      modify fun s => { s with errors := s.errors ++ ["Failed to read file bytes from disk: " ++ what] }
      pure ""
  else if ctl.opens path then do
    let text ← ofExcept (ctl.readStream path)
    pure (base64Encode text)
  else pure (base64Encode [])

variable (message : Json)

def fulfill (fileType : FileType) (status : Int × Bytes) (fileContent : String) : Handler Unit := do
  let requestId ← member message "requestId"
  let headers := makeHeaders [("Access-Control-Allow-Origin", "*"), ("Content-Type", getMimeStr fileType)]
  sendHost (.fulfillRequest requestId status.1 headers status.2 fileContent)

def vfsRequestHandler (url : Bytes) : Handler Unit :=
  match ctl.internalFtpCallData url with
  | some content => do
    let content ← ofExcept content
    fulfill message .js (200, utf8 "OK cloude") (base64Encode content)
  | none => do
    let path := ctl.pathFromUrl url
    let fileType := getFileType path
    let content ← ctl.diskContent path fileType
    fulfill message fileType (ctl.diskStatus path) content

def patchDocument (url : Bytes) (requestId : String) (id : Json) (statusCode : Int)
    (hooks : ProcessedHooks) : Handler Unit := do
  sendHost (.getResponseBody id)
  let response ← ofExcept ctl.responseBody
  let body ← ofJson (decodedBody response)
  if url.isEmpty || body.isEmpty then sendHost (.continueResponse id)
  else
    let patchedContent := injectIntoDocumentHead body (hooks.preloads ++ hooks.css ++ hooks.scripts)
    let responseMessage ← ofJson (message.value Json.getString "responseStatusText" "OK")
    let responseHeaders ← ofJson (message.value (fun v => .ok v) "responseHeaders" (.arr []))
    sendHost (.fulfillRequest (.str requestId) statusCode responseHeaders
      (utf8 (if responseMessage = "" then "OK" else responseMessage)) (base64Encode patchedContent))

def mimeDocRequestHandler (url : Bytes) : Handler Unit := do
  let requestId ← ofJson (message.value Json.getString "requestId" "")
  let code ← member message "responseStatusCode"
  let statusCode ← ofJson code.getEnum
  let id ← member message "requestId"
  let skip ← ofExcept (doNotHook url ctl.hookBlacklist)
  if skip || isRedirect statusCode then sendHost (.continueResponse id)
  else
    let hooks ← ofExcept (ctl.applyUserWebkitHooks url)
    if hooks.empty then sendHost (.continueResponse id)
    else ctl.patchDocument message url requestId id statusCode hooks

def requestPaused : Handler Unit := do
  let request ← member message "request"
  let url ← member request "url"
  let requestUrl ← ofJson url.getString
  if isVfsRequest (utf8 requestUrl) then ctl.vfsRequestHandler message (utf8 requestUrl)
  else ctl.mimeDocRequestHandler message (utf8 requestUrl)

/-! ### What a release depends on -/

/-- A file is delivered: the callback of a virtual file does not throw, a text file that opens can be read, and the phrase
with the path of a file that does not open is UTF-8. -/
def ServesFile (url : Bytes) : Prop :=
  (match ctl.internalFtpCallData url with
    | some content => content.isOk = true
    | none =>
      let path := ctl.pathFromUrl url
      (isBinFile (getFileType path) = true ∨ ctl.opens path = false ∨ (ctl.readStream path).isOk = true) ∧
        isUtf8 (ctl.diskStatus path).2 = true) ∧
    message.contains "requestId" = true

/-- The body of a document arrives in the expected shape; the status text is only looked at for a body that is not empty. -/
def ServesBody (url : Bytes) : Prop :=
  ∃ response, ctl.responseBody = .ok response ∧ response.isObject = true ∧ response.misfit "body" Json.isString = false ∧
    response.misfit "base64Encoded" Json.isBool = false ∧
    (url = [] ∨ decodedBody response = .ok [] ∨ message.misfit "responseStatusText" Json.isString = false)

/-- A document is delivered: the identifier is a string, there is a status, no pattern and no provider throws, and if there
are hooks for it the body arrives. -/
def ServesDocument (url : Bytes) : Prop :=
  (message.field? "requestId").any Json.isString = true ∧
    ∃ code statusCode, message.field? "responseStatusCode" = some code ∧ code.getEnum = .ok statusCode ∧
      ∃ skip, doNotHook url ctl.hookBlacklist = .ok skip ∧
        ((skip = true ∨ isRedirect statusCode = true) ∨
          ∃ hooks, ctl.applyUserWebkitHooks url = .ok hooks ∧ (hooks.empty = true ∨ ctl.ServesBody message url))

/-- The event has a URL, and the file or document can be delivered. -/
def Serves : Prop :=
  ∃ request url, message.field? "request" = some request ∧ request.field? "url" = some (.str url) ∧
    if isVfsRequest (utf8 url) then ctl.ServesFile message (utf8 url) else ctl.ServesDocument message (utf8 url)

end NetworkHookCtl

/-! ### Exactly one release -/

def NoRelease (s : HookState) : Prop := s.sent.filter Sent.isRelease = []

def ReleasedOnce (message : Json) (s : HookState) : Prop :=
  ∃ m, s.sent.filter Sent.isRelease = [m] ∧ message.field? "requestId" = some m.requestId

/-- The program releases the request if `good`, and stops without a release otherwise. -/
def Ends (good : Prop) (message : Json) (m : Handler Unit) : Prop :=
  Triple NoRelease m (fun _ s => good ∧ ReleasedOnce message s) (fun s => ¬good ∧ NoRelease s)

namespace Ends

open CloudeLoader.Engine.Handler

variable {α : Type} {good : Prop} {message : Json}

theorem congr {good' : Prop} {m} (h : Ends good message m) (hg : good' ↔ good) : Ends good' message m := by
  rw [hg]
  exact h

theorem throw {what} {k : α → Handler Unit} (hg : ¬good) : Ends good message (Handler.throw what >>= k) := by
  intro s hs
  exact ⟨hg, hs⟩

theorem ofExcept {x} {k : α → Handler Unit} {g : α → Prop} (h : ∀ a, x = .ok a → Ends (g a) message (k a)) :
    Ends (∃ a, x = .ok a ∧ g a) message (Handler.ofExcept x >>= k) := by
  cases x with
  | error what =>
    refine throw ?_
    rintro ⟨a, ha, -⟩
    cases ha
  | ok a => exact (h a rfl).congr (by simp)

theorem ofJson {x} {k : α → Handler Unit} {g : α → Prop} (h : ∀ a, x = .ok a → Ends (g a) message (k a)) :
    Ends (∃ a, x = .ok a ∧ g a) message (Handler.ofJson x >>= k) := by
  cases x with
  | error e =>
    refine throw ?_
    rintro ⟨a, ha, -⟩
    cases ha
  | ok a => exact (h a rfl).congr (by simp)

theorem member {j key} {k : Json → Handler Unit} {g : Json → Prop}
    (h : ∀ v, j.field? key = some v → Ends (g v) message (k v)) :
    Ends (∃ v, j.field? key = some v ∧ g v) message (Handler.member j key >>= k) := by
  unfold Handler.member
  split
  · split
    · next v hv =>
      rw [hv] at h
      exact (h v rfl).congr (by simp [hv])
    · next hv =>
      intro s hs
      refine ⟨?_, hs⟩
      rintro ⟨v, hv', -⟩
      cases hv.symm.trans hv'
  · next hobj =>
    refine throw ?_
    rintro ⟨v, hv, -⟩
    exact hobj (Json.isObject_of_field hv)

theorem ite {b : Bool} {m m' : Handler Unit} {g g' : Prop} (h : Ends g message m) (h' : Ends g' message m') :
    Ends (if b then g else g') message (if b then m else m') := by
  cases b with
  | true => exact h
  | false => exact h'

theorem sendHost {m} (hm : m.isRelease = true) (hid : message.field? "requestId" = some m.requestId) :
    Ends (m.isText = true) message (Handler.sendHost m) := by
  unfold Handler.sendHost
  split
  · next ht =>
    intro s hs
    refine ⟨ht, m, ?_, hid⟩
    show (s.sent ++ [m]).filter Sent.isRelease = [m]
    rw [List.filter_append, hs]
    simp [hm]
  · next ht =>
    intro s hs
    exact ⟨ht, hs⟩

theorem request {m} {k : Unit → Handler Unit} (hm : m.isRelease = false) (ht : m.isText = true)
    (h : Ends good message (k ())) : Ends good message (Handler.sendHost m >>= k) := by
  unfold Handler.sendHost
  rw [if_pos ht]
  refine Triple.bind (Q := fun _ => NoRelease) (Triple.modify fun s hs => ?_) fun _ => h
  show (s.sent ++ [m]).filter Sent.isRelease = []
  rw [List.filter_append, hs]
  simp [hm]

end Ends

theorem decodedBody_ok_iff (response : Json) :
    (∃ body, decodedBody response = .ok body) ↔ response.isObject = true ∧ response.misfit "body" Json.isString = false ∧
      response.misfit "base64Encoded" Json.isBool = false := by
  have hbody := @Json.value_ok_iff _ _ _ response "body" Json.throws_getString ""
  have hbase := @Json.value_ok_iff _ _ _ response "base64Encoded" Json.throws_getBool false
  unfold decodedBody
  cases hb : response.value Json.getString "body" "" with
  | error e => simp_all
  | ok body =>
    cases h64 : response.value Json.getBool "base64Encoded" false with
    | error e => simp_all
    | ok isBase64 => simp_all

namespace NetworkHookCtl

variable (ctl : NetworkHookCtl) {message : Json} {url : Bytes}

theorem diskContent_ends {path fileType} {k : String → Handler Unit} {g : Prop}
    (h : ∀ content, Ends g message (k content)) :
    Ends ((isBinFile fileType = true ∨ ctl.opens path = false ∨ (ctl.readStream path).isOk = true) ∧ g) message
      (ctl.diskContent path fileType >>= k) := by
  unfold diskContent
  split
  · next hbin =>
    have hg : (isBinFile fileType = true ∨ ctl.opens path = false ∨ (ctl.readStream path).isOk = true) ∧ g ↔ g := by
      simp [hbin]
    split
    · exact (h _).congr hg
    · intro s hs
      exact (h "").congr hg _ hs
  · next hbin =>
    split
    · next hopen =>
      cases hread : ctl.readStream path with
      | ok text =>
        refine (h _).congr ?_
        have hok : (Except.ok text : Except String Bytes).isOk = true := rfl
        simp [hok]
      | error what => exact Ends.throw (by simp [hbin, hopen, Except.isOk, Except.toBool])
    · next hopen => exact (h _).congr (by simp [hopen])

theorem fulfill_ends (fileType : FileType) (status : Int × Bytes) (content : String) :
    Ends (isUtf8 status.2 = true ∧ message.contains "requestId" = true) message (fulfill message fileType status content) := by
  refine (Ends.member fun id hid => Ends.sendHost rfl hid).congr ?_
  simp only [Json.contains, Option.isSome_iff_exists, Sent.isText]
  constructor
  · rintro ⟨ht, id, hid⟩
    exact ⟨id, hid, ht⟩
  · rintro ⟨id, hid, ht⟩
    exact ⟨ht, id, hid⟩

theorem vfsRequestHandler_ends (message : Json) (url : Bytes) :
    Ends (ctl.ServesFile message url) message (ctl.vfsRequestHandler message url) := by
  unfold ServesFile vfsRequestHandler
  split
  · next content _ =>
    refine (Ends.ofExcept fun text _ => fulfill_ends .js _ _).congr ?_
    simp only [isUtf8_utf8, true_and]
    cases content with
    | ok text => simp [Except.isOk, Except.toBool]
    | error what => simp [Except.isOk, Except.toBool]
  · exact (ctl.diskContent_ends fun content => fulfill_ends _ _ content).congr and_assoc

theorem patchDocument_ends {requestId : String} {id : Json} (statusCode : Int) (hooks : ProcessedHooks)
    (hid : message.field? "requestId" = some id) (hstr : id = .str requestId) :
    Ends (ctl.ServesBody message url) message (ctl.patchDocument message url requestId id statusCode hooks) := by
  have hobj := Json.isObject_of_field hid
  refine Ends.request rfl rfl ?_
  refine (Ends.ofExcept fun response _ => Ends.ofJson fun body _ => Ends.ite (Ends.sendHost rfl hid)
    (Ends.ofJson fun responseMessage _ => Ends.ofJson fun responseHeaders _ => Ends.sendHost rfl (by rw [hid, hstr]; rfl))).congr ?_
  refine exists_congr fun response => and_congr_right fun _ => ?_
  have hbody := decodedBody_ok_iff response
  have htext := @Json.value_ok_iff _ _ _ message "responseStatusText" Json.throws_getString "OK"
  have hhdr := Json.value_json hobj "responseHeaders" (.arr [])
  simp only [hobj, true_and] at htext
  rw [← and_assoc, ← and_assoc, and_assoc (a := response.isObject = true), ← hbody, ← exists_and_right]
  refine exists_congr fun body => and_congr_right fun hb => ?_
  have hfull : (∃ responseMessage, message.value Json.getString "responseStatusText" "OK" = .ok responseMessage ∧
      ∃ responseHeaders, message.value (fun v => .ok v) "responseHeaders" (.arr []) = .ok responseHeaders ∧
        (Sent.fulfillRequest (.str requestId) statusCode responseHeaders
          (utf8 (if responseMessage = "" then "OK" else responseMessage))
          (base64Encode (injectIntoDocumentHead body (hooks.preloads ++ hooks.css ++ hooks.scripts)))).isText = true) ↔
      message.misfit "responseStatusText" Json.isString = false := by
    rw [← htext]
    refine exists_congr fun responseMessage => and_iff_left ?_
    obtain ⟨responseHeaders, hr⟩ := hhdr
    exact ⟨responseHeaders, hr, isUtf8_utf8 _⟩
  rw [hfull]
  by_cases hemp : (url.isEmpty || body.isEmpty) = true
  · rw [if_pos hemp]
    refine iff_of_true ?_ rfl
    simp only [Bool.or_eq_true, List.isEmpty_iff] at hemp
    rcases hemp with hu | hb'
    · exact .inl hu
    · exact .inr (.inl (by rw [hb, hb']))
  · rw [if_neg hemp]
    simp only [Bool.or_eq_true, List.isEmpty_iff, not_or] at hemp
    constructor
    · rintro (hu | hb' | ht)
      · exact absurd hu hemp.1
      · exact absurd (Except.ok.inj (hb.symm.trans hb')) hemp.2
      · exact ht
    · exact fun ht => .inr (.inr ht)

theorem requestId_str {requestId id} (hv : message.value Json.getString "requestId" "" = .ok requestId)
    (hid : message.field? "requestId" = some id) : id = .str requestId := by
  rw [Json.value_of_field hid] at hv
  cases id with
  | str s =>
    obtain rfl : s = requestId := Except.ok.inj hv
    rfl
  | _ => cases hv

theorem mimeDocRequestHandler_ends (message : Json) (url : Bytes) :
    Ends (ctl.ServesDocument message url) message (ctl.mimeDocRequestHandler message url) := by
  refine (Ends.ofJson fun requestId hv => Ends.member fun code _ => Ends.ofJson fun statusCode _ => Ends.member fun id hid =>
    Ends.ofExcept fun skip _ => Ends.ite (Ends.sendHost rfl hid) (Ends.ofExcept fun hooks _ =>
      Ends.ite (Ends.sendHost rfl hid) (ctl.patchDocument_ends statusCode hooks hid (requestId_str hv hid)))).congr ?_
  have hsend : ∀ id, (Sent.continueResponse id).isText = true := fun _ => rfl
  simp only [ServesDocument, hsend, Bool.or_eq_true, if_true_left, ← or_iff_not_imp_left, Json.any_isString]
  constructor
  · rintro ⟨⟨requestId, hid⟩, code, statusCode, hcode, hstt, hrest⟩
    exact ⟨requestId, Json.value_of_field hid "", code, hcode, statusCode, hstt, _, hid, hrest⟩
  · rintro ⟨requestId, hv, code, hcode, statusCode, hstt, id, hid, hrest⟩
    obtain rfl := requestId_str hv hid
    exact ⟨⟨requestId, hid⟩, code, statusCode, hcode, hstt, hrest⟩

theorem requestPaused_ends (message : Json) : Ends (ctl.Serves message) message (ctl.requestPaused message) := by
  refine (Ends.member fun request _ => Ends.member fun url _ => Ends.ofJson fun requestUrl _ =>
    Ends.ite (ctl.vfsRequestHandler_ends message _) (ctl.mimeDocRequestHandler_ends message _)).congr ?_
  constructor
  · rintro ⟨request, url, hreq, hurl, hs⟩
    exact ⟨request, hreq, _, hurl, url, rfl, hs⟩
  · rintro ⟨request, hreq, url, hurl, requestUrl, hstr, hs⟩
    cases url with
    | str s =>
      obtain rfl : s = requestUrl := Except.ok.inj hstr
      exact ⟨request, s, hreq, hurl, hs⟩
    | _ => cases hstr

/-- For every event and all surroundings: the request is released at most once, and it is released exactly once if and only
if it can be served. -/
theorem requestPaused_releases_iff (message : Json) :
    let s := (ctl.requestPaused message ⟨[], []⟩).1
    (s.sent.filter Sent.isRelease).length ≤ 1 ∧ (ReleasedOnce message s ↔ ctl.Serves message) := by
  intro s
  have h := ctl.requestPaused_ends message ⟨[], []⟩ rfl
  split at h
  · next s' _ hr =>
    obtain ⟨hg, m, hm, hid⟩ := h
    obtain rfl : s = s' := congrArg Prod.fst hr
    exact ⟨by rw [hm]; rfl, iff_of_true ⟨m, hm, hid⟩ hg⟩
  · next s' hr =>
    obtain ⟨hg, hno⟩ := h
    obtain rfl : s = s' := congrArg Prod.fst hr
    refine ⟨by rw [hno]; exact Nat.zero_le 1, iff_of_false ?_ hg⟩
    rintro ⟨m, hm, -⟩
    cases hno.symm.trans hm

def bodyTimeout : NetworkHookCtl where
  hookList := [⟨utf8 "theme.css", fun _ => .ok true, .stylesheet⟩]
  dynamicCssProvider := none
  hookBlacklist := []
  internalFtpCallData := fun _ => none
  cloudePath := utf8 "/opt/cloude"
  opens := fun _ => false
  readStream := fun _ => .error "not found"
  readFileBytes := fun _ => .error "not found"
  responseBody := .error "Request timeout"

def storePage : Json :=
  .obj [("requestId", .str "interception-job-1.0"),
    ("request", .obj [("url", .str "https://store.steampowered.com/")]), ("responseStatusCode", .int 200)]

theorem storePage_not_released :
    (bodyTimeout.requestPaused storePage ⟨[], []⟩).1.sent.map Sent.isRelease = [false] ∧
      (bodyTimeout.requestPaused storePage ⟨[], []⟩).1.errors = ["Request timeout"] := by
  decide +kernel

end NetworkHookCtl

end CloudeLoader.Engine
