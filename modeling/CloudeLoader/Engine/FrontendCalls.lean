import CloudeLoader.Engine.Base64
import CloudeLoader.Engine.ServerCalls
import CloudeLoader.Lib.Utf16

/-!
# Calls of the frontend (`core_ipc.cc`, `cloude.cc` of the host)

`cloude.call_frontend_method` sends its arguments to the loader, which writes a script that calls a method of the plugin's
frontend and has the page evaluate it.
-/

namespace CloudeLoader.LuaHost.LuaState

open Engine (Bytes utf8 cString)

def frontendParam (L : LuaState) (v : LuaValue) : Except Bytes JsonValue :=
  match L.text? v, v with
  | some s, _ => .ok (.str s)
  | none, .boolean b => .ok (.bool b)
  | none, _ => .error (utf8 "Cloude's IPC can only handle [boolean, string, number]")

def frontendRequest (methodName caller : Bytes) (params : List JsonValue) : JsonValue :=
  .obj [(utf8 "caller", .str caller), (utf8 "methodName", .str (cString methodName)), (utf8 "params", .arr params)]

end CloudeLoader.LuaHost.LuaState

namespace CloudeLoader.Engine

open LuaHost

variable {c : UInt8}

/-! ### The script -/

inductive JavascriptParameter
  | bool (b : Bool)
  | number (q : ℚ)
  | nonFinite (bits : UInt64)
  | string (s : Bytes)

def javascriptParameter? : JsonValue → Option JavascriptParameter
  | .str s => some (.string s)
  | .bool b => some (.bool b)
  | .num q => some (.number q)
  | .nonFinite bits => some (.nonFinite bits)
  | _ => none

def JavascriptParameter.text (format : ℚ → Bytes) : JavascriptParameter → Bytes
  | .bool b => utf8 (if b then "true" else "false")
  | .number q => format q
  | .nonFinite bits =>
    utf8 (if bits = 0x7ff0000000000000 then "inf" else if bits = 0xfff0000000000000 then "-inf" else "nan")
  | .string s => utf8 "atob(\"" ++ (utf8 (base64Encode s) ++ utf8 "\")")

def parameterTexts (format : ℚ → Bytes) : List JavascriptParameter → Bytes
  | [] => []
  | [p] => p.text format
  | p :: q :: rest => p.text format ++ (utf8 ", " ++ parameterTexts format (q :: rest))

@[irreducible] def errorHandlerHead : Bytes := utf8 (
  "\n        if (typeof window !== 'undefined' && typeof window.CloudeFrontEndError === 'undefined') \x7b" ++
  "\n            window.CloudeFrontEndError = class CloudeFrontEndError extends Error \x7b" ++
  "\n                constructor(message) \x7b" ++
  "\n                    super(message);" ++
  "\n                    this.name = 'CloudeFrontEndError';" ++
  "\n                \x7d" ++
  "\n            \x7d" ++
  "\n        \x7d" ++
  "\n        if (typeof PLUGIN_LIST === 'undefined' || !PLUGIN_LIST?.['")

@[irreducible] def errorHandlerTail : Bytes := utf8 (
  "]) \x7b" ++
  "\n            throw new window.CloudeFrontEndError('frontend not loaded yet!');" ++
  "\n        \x7d" ++
  "\n    ")

def compileJavascriptExpression (format : ℚ → Bytes) (plugin methodName : Bytes) (fnParams : List JavascriptParameter) : Bytes :=
  errorHandlerHead ++ (plugin ++ (utf8 "'" ++ (errorHandlerTail ++ (utf8 "window.PLUGIN_LIST['" ++ (plugin ++ (utf8 "'" ++
    (utf8 "]." ++ (methodName ++ (utf8 "(" ++ (parameterTexts format fnParams ++ utf8 ");"))))))))))

def frontendData (pluginName : Bytes) (params : JsonValue) : Except Bytes JsonValue :=
  match params.valueOf JsonValue.getString (utf8 "methodName") [], params.valueOf JsonValue.getString (utf8 "caller") [] with
  | .ok methodName, .ok caller =>
    .ok (.obj [(utf8 "argumentList", (params.field? (utf8 "params")).getD (.arr [])), (utf8 "caller", .str caller),
      (utf8 "methodName", .str methodName), (utf8 "pluginName", .str pluginName)])
  | .error e, _ => .error e
  | .ok _, .error e => .error e

def elements : JsonValue → List JsonValue
  | .null => []
  | .arr xs => xs
  | .obj fields => fields.map (·.2)
  | v => [v]

def frontendScript (format : ℚ → Bytes) (data : JsonValue) : Except Bytes Bytes :=
  let params := (((data.field? (utf8 "argumentList")).map elements).getD []).filterMap javascriptParameter?
  match data.atOf JsonValue.getString (utf8 "pluginName"), data.atOf JsonValue.getString (utf8 "methodName") with
  | .ok pluginName, .ok methodName => .ok (compileJavascriptExpression format pluginName methodName params)
  | .error e, _ => .error e
  | .ok _, .error e => .error e

/-! ### The page -/

inductive JsValue
  | boolean (b : Bool)
  | number (q : ℚ)
  | string (units : List UInt16)
  deriving DecidableEq

structure Invocation where
  plugin : Bytes
  method : Bytes
  args : List JsValue
  deriving DecidableEq

/-- The page, by the methods in `PLUGIN_LIST` and what it takes for a name and for a number.  Methods are exported functions, so
their names are identifiers. -/
structure Page where
  plugins : Bytes → Option (Bytes → Bool)
  isIdentifierName : Bytes → Bool
  number? : Bytes → Option ℚ
  plain_of_isIdentifierName : ∀ name, isIdentifierName name = true → 40 ∉ name ∧ 0 ∉ name
  isIdentifierName_of_method : ∀ plugin methods name, plugins plugin = some methods → methods name = true →
    isIdentifierName name = true

def expect : Bytes → Bytes → Option Bytes
  | [], s => some s
  | _ :: _, [] => none
  | c :: cs, d :: s => if c = d then expect cs s else none

/-- The characters that end a string literal or make it say something else than it has between its quotes. -/
def isPlain (quote c : UInt8) : Bool := c ≠ quote && c ≠ 92 && c ≠ 10 && c ≠ 13

def quoted (quote : UInt8) (s : Bytes) : Option (Bytes × Bytes) :=
  let text := s.takeWhile (isPlain quote)
  (expect [quote] (s.drop text.length)).map fun rest => (text, rest)

def latin1 (text : Bytes) : List Char := text.map fun c => Char.ofNat c.toNat

namespace Page

def readArg (page : Page) (s : Bytes) : Option (JsValue × Bytes) :=
  match expect (utf8 "atob(\"") s with
  | some s =>
    match quoted 34 s with
    | none => none
    | some (text, s) =>
      match atob? (latin1 text), expect (utf8 ")") s with
      | some bytes, some s => some (.string (Utf16.widen bytes), s)
      | _, _ => none
  | none =>
    let word := s.takeWhile fun c => c ≠ 44 && c ≠ 41
    let s := s.drop word.length
    if word = utf8 "true" then some (.boolean true, s)
    else if word = utf8 "false" then some (.boolean false, s)
    else (page.number? word).map fun q => (.number q, s)

def readArgs (page : Page) : Nat → Bytes → Option (List JsValue)
  | 0, _ => none
  | fuel + 1, s =>
    match page.readArg s with
    | none => none
    | some (v, s) =>
      if s = utf8 ");" then some [v]
      else
        match expect (utf8 ", ") s with
        | none => none
        | some s => (page.readArgs fuel s).map (v :: ·)

def readArgumentList (page : Page) (s : Bytes) : Option (List JsValue) :=
  if s = utf8 ");" then some [] else page.readArgs s.length s

def readCall (page : Page) (s : Bytes) : Option Invocation := do
  let s ← expect (utf8 "window.PLUGIN_LIST['") s
  let (plugin, s) ← quoted 39 s
  let s ← expect (utf8 "].") s
  let method := s.takeWhile (· ≠ 40)
  guard (page.isIdentifierName method)
  let s ← expect (utf8 "(") (s.drop method.length)
  let args ← page.readArgumentList s
  return ⟨plugin, method, args⟩

def run (page : Page) (script : Bytes) : Option Invocation := do
  let s ← expect errorHandlerHead script
  let (guarded, s) ← quoted 39 s
  let s ← expect errorHandlerTail s
  let _ ← page.plugins guarded
  let call ← page.readCall s
  let methods ← page.plugins call.plugin
  guard (methods call.method)
  return call

end Page

/-! ### The whole way -/

structure FrontendEnv where
  lua : LuaState
  widths : MessagePack.Widths
  format : ℚ → Bytes
  page : Page

/-- `cloude.call_frontend_method` with the elements of its table, as the request `id` of the child: the call the page makes.  The
script is sent to the page as JSON, so it must be UTF-8. -/
def callFrontendMethod (env : FrontendEnv) (id : ℤ) (pluginName methodName caller : Bytes) (args : List LuaValue) :
    Option Invocation :=
  match args.mapM env.lua.frontendParam with
  | .error _ => none
  | .ok params =>
    let msg := LuaState.frontendRequest methodName caller params
    if fits env.widths (request id "call_frontend_method" msg) then
      match (frontendData pluginName msg).bind (frontendScript env.format) with
      | .error _ => none
      | .ok script => if isUtf8 script then env.page.run script else none
    else none

/-! ### Reading what was written -/

theorem expect_append (cs s : Bytes) : expect cs (cs ++ s) = some s := by
  induction cs with
  | nil => rfl
  | cons c cs ih => rw [List.cons_append, expect, if_pos rfl, ih]

theorem takeWhile_append_cons {p : UInt8 → Bool} {cs rest} (hcs : ∀ x ∈ cs, p x = true) (hc : p c = false) :
    (cs ++ c :: rest).takeWhile p = cs := by
  rw [List.takeWhile_append_of_pos hcs, List.takeWhile_cons_of_neg (by simp [hc]), List.append_nil]

theorem quoted_append {quote text rest} (h : ∀ c ∈ text, isPlain quote c = true) :
    quoted quote (text ++ ([quote] ++ rest)) = some (text, rest) := by
  have htext : (text ++ ([quote] ++ rest)).takeWhile (isPlain quote) = text :=
    takeWhile_append_cons h (by simp [isPlain])
  rw [quoted, htext, List.drop_left, expect_append]
  rfl

theorem plain_of_quoted {quote s text rest} (h : quoted quote s = some (text, rest)) :
    ∀ c ∈ text, isPlain quote c = true := by
  obtain ⟨_, -, heq⟩ := Option.map_eq_some_iff.1 h
  obtain ⟨rfl, rfl⟩ := Prod.mk.inj heq
  exact fun c hc => List.mem_takeWhile_imp hc

/-! ### Base64 in a literal -/

theorem byte_of_mem_base64Encode {bytes c} (h : c ∈ (base64Encode bytes).toList) :
    c.toNat < 128 ∧ isPlain 34 (UInt8.ofNat c.toNat) = true := by
  have hchr : ∀ n < 64, (base64Char n).toNat < 128 ∧ isPlain 34 (UInt8.ofNat (base64Char n).toNat) = true := by
    decide +kernel
  rcases eq_of_mem_base64Encode h with rfl | ⟨n, hn, rfl⟩
  · decide
  · exact hchr n hn

theorem utf8_base64Encode (bytes : Bytes) :
    utf8 (base64Encode bytes) = (base64Encode bytes).toList.map fun c => UInt8.ofNat c.toNat := by
  rw [utf8, Utf16.toByteArray_eq]
  exact Utf16.encode_of_forall_lt fun c hc => (byte_of_mem_base64Encode hc).1

theorem plain_base64Encode {bytes} (h : c ∈ utf8 (base64Encode bytes)) : isPlain 34 c = true := by
  rw [utf8_base64Encode] at h
  obtain ⟨c, hc, rfl⟩ := List.mem_map.1 h
  exact (byte_of_mem_base64Encode hc).2

theorem latin1_utf8_base64Encode (bytes : Bytes) : latin1 (utf8 (base64Encode bytes)) = (base64Encode bytes).toList := by
  rw [utf8_base64Encode, latin1, List.map_map]
  conv_rhs => rw [← List.map_id (base64Encode bytes).toList]
  refine List.map_congr_left fun c hc => ?_
  have hlt := (byte_of_mem_base64Encode hc).1
  rw [Function.comp_apply, UInt8.toNat_ofNat', Nat.mod_eq_of_lt (by omega), Char.ofNat_toNat, id_eq]

/-! ### Arguments -/

inductive Writes : JavascriptParameter → JsValue → Prop
  | bool (b : Bool) : Writes (.bool b) (.boolean b)
  | string (s : Bytes) : Writes (.string s) (.string (Utf16.widen s))

section Reading

variable {page : Page} {format : ℚ → Bytes} {p : JavascriptParameter} {v : JsValue}

theorem readArg_word (word : Bytes) {rest} (hc : c = 44 ∨ c = 41)
    (hword : (word.all fun x => x ≠ 44 && x ≠ 41) = true) (hatob : ∀ s, expect (utf8 "atob(\"") (word ++ s) = none) :
    page.readArg (word ++ c :: rest) =
      if word = utf8 "true" then some (.boolean true, c :: rest)
      else if word = utf8 "false" then some (.boolean false, c :: rest)
      else (page.number? word).map fun q => (.number q, c :: rest) := by
  have htake : (word ++ c :: rest).takeWhile (fun c => decide (c ≠ 44) && decide (c ≠ 41)) = word :=
    takeWhile_append_cons (List.all_eq_true.1 hword) (by rcases hc with rfl | rfl <;> decide)
  simp only [Page.readArg, hatob, htake, List.drop_left]

theorem readArg_text (page : Page) (format : ℚ → Bytes) (h : Writes p v) (hc : c = 44 ∨ c = 41) (rest : Bytes) :
    page.readArg (p.text format ++ c :: rest) = some (v, c :: rest) := by
  cases h with
  | bool b =>
    cases b with
    | true => exact readArg_word (utf8 "true") hc rfl fun s => rfl
    | false => exact readArg_word (utf8 "false") hc rfl fun s => rfl
  | string bytes =>
    have hcls : utf8 "\")" = [34] ++ utf8 ")" := rfl
    simp only [Page.readArg, JavascriptParameter.text, List.append_assoc, expect_append, hcls]
    rw [quoted_append fun c hc => plain_base64Encode hc]
    simp only [latin1_utf8_base64Encode, atob?_base64Encode, expect_append]

theorem readArgs_parameterTexts {ps vs} (h : List.Forall₂ Writes ps vs)
    (hne : ps ≠ []) {fuel : Nat} (hfuel : ps.length ≤ fuel) :
    page.readArgs fuel (parameterTexts format ps ++ utf8 ");") = some vs := by
  induction h generalizing fuel with
  | nil => exact absurd rfl hne
  | @cons p v ps vs hp hps ih =>
    obtain ⟨fuel, rfl⟩ : ∃ n, fuel = n + 1 := ⟨fuel - 1, by rw [List.length_cons] at hfuel; omega⟩
    cases hps with
    | nil =>
      have hread := readArg_text page format hp (.inr rfl : (41 : UInt8) = 44 ∨ (41 : UInt8) = 41) [59]
      have hend : utf8 ");" = 41 :: [59] := rfl
      simp only [parameterTexts, hend, Page.readArgs, hread, if_true]
    | @cons q w ps vs hq hps =>
      have hrest := ih (List.cons_ne_nil q ps) (Nat.le_of_succ_le_succ hfuel)
      have hread := readArg_text page format hp (.inl rfl : (44 : UInt8) = 44 ∨ (44 : UInt8) = 41)
        (32 :: (parameterTexts format (q :: ps) ++ utf8 ");"))
      have htext : parameterTexts format (p :: q :: ps) ++ utf8 ");" =
          p.text format ++ 44 :: 32 :: (parameterTexts format (q :: ps) ++ utf8 ");") := by
        rw [parameterTexts, List.append_assoc]
        rfl
      have hcom : expect (utf8 ", ") (44 :: 32 :: (parameterTexts format (q :: ps) ++ utf8 ");")) =
        some (parameterTexts format (q :: ps) ++ utf8 ");") := expect_append [44, 32] _
      have hmore : 44 :: 32 :: (parameterTexts format (q :: ps) ++ utf8 ");") ≠ utf8 ");" := fun h => by cases h
      rw [htext, Page.readArgs]
      simp only [hread, if_neg hmore, hcom, hrest, Option.map_some]

theorem length_parameterTexts (format : ℚ → Bytes) {ps vs}
    (h : List.Forall₂ Writes ps vs) : ps.length ≤ (parameterTexts format ps).length := by
  have htext : ∀ {p v}, Writes p v → 1 ≤ (p.text format).length := by
    intro p v hp
    cases hp with
    | bool b => cases b <;> exact Nat.succ_le_succ (Nat.zero_le _)
    | string bytes => exact Nat.succ_le_succ (Nat.zero_le _)
  induction h with
  | nil => exact Nat.le_refl 0
  | @cons p v ps vs hp hps ih =>
    have := htext hp
    cases hps with
    | nil => exact this
    | @cons q w ps vs hq hps =>
      rw [parameterTexts, List.length_append, List.length_append, List.length_cons]
      omega

theorem isUtf8_parameterTexts {ps vs} (h : List.Forall₂ Writes ps vs) : isUtf8 (parameterTexts format ps) = true := by
  have htext : ∀ {p v}, Writes p v → isUtf8 (p.text format) = true := by
    intro p v hp
    cases hp with
    | bool b => exact isUtf8_utf8 _
    | string bytes => exact isUtf8_append (isUtf8_utf8 _) (isUtf8_append (isUtf8_utf8 _) (isUtf8_utf8 _))
  induction h with
  | nil => exact isUtf8_utf8 ""
  | @cons p v ps vs hp hps ih =>
    cases hps with
    | nil => exact htext hp
    | @cons q w ps vs hq hps => exact isUtf8_append (htext hp) (isUtf8_append (isUtf8_utf8 _) ih)

theorem isUtf8_errorHandlerHead : isUtf8 errorHandlerHead = true := by
  unfold errorHandlerHead
  exact isUtf8_utf8 _

theorem isUtf8_errorHandlerTail : isUtf8 errorHandlerTail = true := by
  unfold errorHandlerTail
  exact isUtf8_utf8 _

theorem isUtf8_compileJavascriptExpression (format : ℚ → Bytes) {ps vs}
    (h : List.Forall₂ Writes ps vs) (plugin method : String) :
    isUtf8 (compileJavascriptExpression format (utf8 plugin) (utf8 method) ps) = true := by
  refine isUtf8_append isUtf8_errorHandlerHead (isUtf8_append (isUtf8_utf8 _) (isUtf8_append (isUtf8_utf8 _) ?_))
  refine isUtf8_append isUtf8_errorHandlerTail (isUtf8_append (isUtf8_utf8 _) (isUtf8_append (isUtf8_utf8 _) ?_))
  refine isUtf8_append (isUtf8_utf8 _) (isUtf8_append (isUtf8_utf8 _) (isUtf8_append (isUtf8_utf8 _) ?_))
  exact isUtf8_append (isUtf8_utf8 _) (isUtf8_append (isUtf8_parameterTexts h) (isUtf8_utf8 _))

/-! ### Scripts -/

def PlainName (name : Bytes) : Prop := ∀ c ∈ name, isPlain 39 c = true

instance decidablePlainName (name : Bytes) : Decidable (PlainName name) :=
  inferInstanceAs (Decidable (∀ c ∈ name, isPlain 39 c = true))

theorem plainName_of_readCall {s call} (h : page.readCall s = some call) : PlainName call.plugin := by
  simp only [Page.readCall, Option.bind_eq_bind, Option.bind_eq_some_iff] at h
  obtain ⟨_, -, ⟨plugin, _⟩, hqtd, _, -, _, -, _, -, args, -, ⟨⟩⟩ := h
  exact plain_of_quoted hqtd

theorem plainName_of_run {script call} (h : page.run script = some call) : PlainName call.plugin := by
  simp only [Page.run, Option.bind_eq_bind, Option.bind_eq_some_iff] at h
  obtain ⟨_, -, _, -, _, -, _, -, read, hread, _, -, _, -, ⟨⟩⟩ := h
  exact plainName_of_readCall hread

section Compiled

variable {plugin method : Bytes} {methods : Bytes → Bool} {ps : List JavascriptParameter} {vs : List JsValue}

theorem readArgumentList_parameterTexts (h : List.Forall₂ Writes ps vs) :
    page.readArgumentList (parameterTexts format ps ++ utf8 ");") = some vs := by
  have hlen := length_parameterTexts format h
  cases h with
  | nil => rfl
  | @cons p v ps vs hp hps =>
    have hne : parameterTexts format (p :: ps) ++ utf8 ");" ≠ utf8 ");" := by
      intro heq
      have := congrArg List.length heq
      rw [List.length_append] at this
      rw [List.length_cons] at hlen
      omega
    rw [Page.readArgumentList, if_neg hne]
    refine readArgs_parameterTexts (.cons hp hps) (List.cons_ne_nil p ps) ?_
    rw [List.length_append]
    omega

theorem readCall_append (format : ℚ → Bytes) (hplg : PlainName plugin) (hmet : page.isIdentifierName method = true)
    (h : List.Forall₂ Writes ps vs) :
    page.readCall (utf8 "window.PLUGIN_LIST['" ++ (plugin ++ (utf8 "'" ++ (utf8 "]." ++ (method ++ (utf8 "(" ++
      (parameterTexts format ps ++ utf8 ");"))))))) = some ⟨plugin, method, vs⟩ := by
  have hqt : utf8 "'" = [39] := rfl
  have hname : (method ++ (utf8 "(" ++ (parameterTexts format ps ++ utf8 ");"))).takeWhile (· ≠ 40) = method :=
    takeWhile_append_cons (fun c hc => by
      simpa using ne_of_mem_of_not_mem hc (page.plain_of_isIdentifierName method hmet).1) (by decide)
  simp only [Page.readCall, Option.bind_eq_bind, expect_append, Option.bind_some, hqt, quoted_append hplg, hname, hmet,
    guard_true, Option.pure_def, List.drop_left, readArgumentList_parameterTexts h]

theorem run_compileJavascriptExpression (hplg : PlainName plugin) (hmet : page.plugins plugin = some methods)
    (hmth : methods method = true) (h : List.Forall₂ Writes ps vs) :
    page.run (compileJavascriptExpression format plugin method ps) = some ⟨plugin, method, vs⟩ := by
  have hread := readCall_append format hplg
    (page.isIdentifierName_of_method plugin methods method hmet hmth) h
  have hqt : utf8 "'" = [39] := rfl
  rw [hqt] at hread
  simp only [Page.run, compileJavascriptExpression, Option.bind_eq_bind, expect_append, Option.bind_some, hqt,
    quoted_append hplg, hmet, hread, hmth, guard_true, Option.pure_def]

end Compiled

end Reading

/-! ### Arguments of Lua -/

/-- An element of the table: a boolean, an integer, or a string that is UTF-8. -/
inductive LuaArg
  | boolean (b : Bool)
  | integer (n : ℤ) (h : n.natAbs < 2 ^ 53)
  | string (s : String)

namespace LuaArg

def toLua : LuaArg → LuaValue
  | .boolean b => .boolean b
  | .integer n _ => .number (.finite n)
  | .string s => .string (utf8 s)

def toJs : LuaArg → JsValue
  | .boolean b => .boolean b
  | .integer n _ => .number n
  | .string s => .string (Utf16.units s)

def sent : LuaArg → JsonValue
  | .boolean b => .bool b
  | .integer n _ => .str (Decimal.general 14 n)
  | .string s => .str (cString (utf8 s))

def arrives : LuaArg → JsValue
  | .boolean b => .boolean b
  | .integer n _ => .string (Utf16.widen (Decimal.general 14 n))
  | .string s => .string (Utf16.widen (cString (utf8 s)))

def Survives : LuaArg → Prop
  | .boolean _ => True
  | .integer _ _ => False
  | .string s => ∀ c ∈ s.toList, 0 < c.toNat ∧ c.toNat < 128

theorem arrives_eq_iff (a : LuaArg) : a.arrives = a.toJs ↔ a.Survives := by
  cases a with
  | boolean b => exact iff_of_true rfl trivial
  | integer n h => exact iff_of_false (fun heq => by cases heq) id
  | string s =>
    rw [arrives, toJs, JsValue.string.injEq]
    exact Utf16.units_eq_iff s

theorem frontendParam_toLua (L : LuaState) (a : LuaArg) : L.frontendParam a.toLua = .ok a.sent := by
  cases a with
  | boolean b => rfl
  | integer n h =>
    simp only [LuaState.frontendParam, toLua, LuaState.text?, L.numberText_int n h, sent]
    rw [cString_of_notMem fun hmem => Decimal.ne_zero_of_mem_general hmem rfl]
  | string s => rfl

def parameter : LuaArg → JavascriptParameter
  | .boolean b => .bool b
  | .integer n _ => .string (Decimal.general 14 n)
  | .string s => .string (cString (utf8 s))

theorem javascriptParameter?_sent (a : LuaArg) : javascriptParameter? a.sent = some a.parameter := by
  cases a <;> rfl

theorem writes_parameter (a : LuaArg) : Writes a.parameter a.arrives := by
  cases a with
  | boolean b => exact .bool b
  | integer n h => exact .string _
  | string s => exact .string _

end LuaArg

theorem writes_map (args : List LuaArg) : List.Forall₂ Writes (args.map LuaArg.parameter) (args.map LuaArg.arrives) :=
  List.forall₂_map_left_iff.2 (List.forall₂_map_right_iff.2 (List.forall₂_same.2 fun a _ => a.writes_parameter))

theorem mapM_frontendParam (L : LuaState) (args : List LuaArg) :
    (args.map LuaArg.toLua).mapM L.frontendParam = .ok (args.map LuaArg.sent) := by
  induction args with
  | nil => rfl
  | cons a args ih =>
    rw [List.map_cons, List.mapM_cons, LuaArg.frontendParam_toLua, ih]
    rfl

theorem frontendScript_sent (format : ℚ → Bytes) (pluginName methodName caller : Bytes) (args : List LuaArg) :
    (frontendData pluginName (LuaState.frontendRequest methodName caller (args.map LuaArg.sent))).bind (frontendScript format) =
      .ok (compileJavascriptExpression format pluginName (cString methodName) (args.map LuaArg.parameter)) := by
  have hpar : (args.map LuaArg.sent).filterMap javascriptParameter? = args.map LuaArg.parameter := by
    rw [List.filterMap_map]
    exact List.filterMap_eq_map_iff_forall_eq_some.2 fun a _ => LuaArg.javascriptParameter?_sent a
  rw [← hpar]
  rfl

section Calls

variable {env : FrontendEnv} {plugin method : String} {methods : Bytes → Bool}

theorem callFrontendMethod_eq (id : ℤ) (caller : Bytes) (hmet : env.page.plugins (utf8 plugin) = some methods)
    (hmth : methods (utf8 method) = true) (args : List LuaArg) :
    callFrontendMethod env id (utf8 plugin) (utf8 method) caller (args.map LuaArg.toLua) =
      if fits env.widths (request id "call_frontend_method"
          (LuaState.frontendRequest (utf8 method) caller (args.map LuaArg.sent))) then
        env.page.run (compileJavascriptExpression env.format (utf8 plugin) (utf8 method) (args.map LuaArg.parameter))
      else none := by
  have hidn := env.page.isIdentifierName_of_method _ methods _ hmet hmth
  have hname : cString (utf8 method) = utf8 method := cString_of_notMem (env.page.plain_of_isIdentifierName _ hidn).2
  have hutf8 := isUtf8_compileJavascriptExpression env.format (writes_map args) plugin method
  simp only [callFrontendMethod, mapM_frontendParam, frontendScript_sent, hname, hutf8, if_true]

/-- The method receives the arguments of the backend if the request fits into a frame, the name of the plugin may stand in a
literal, and every argument survives. -/
theorem arguments_preserved_iff (id : ℤ) (caller : Bytes) (hmethods : env.page.plugins (utf8 plugin) = some methods)
    (hmethod : methods (utf8 method) = true) (args : List LuaArg) :
    callFrontendMethod env id (utf8 plugin) (utf8 method) caller (args.map LuaArg.toLua) =
        some ⟨utf8 plugin, utf8 method, args.map LuaArg.toJs⟩ ↔
      fits env.widths (request id "call_frontend_method"
          (LuaState.frontendRequest (utf8 method) caller (args.map LuaArg.sent))) = true ∧
        PlainName (utf8 plugin) ∧ ∀ a ∈ args, a.Survives := by
  rw [callFrontendMethod_eq id caller hmethods hmethod args]
  by_cases hfits : fits env.widths (request id "call_frontend_method"
      (LuaState.frontendRequest (utf8 method) caller (args.map LuaArg.sent))) = true
  · rw [if_pos hfits]
    by_cases hpln : PlainName (utf8 plugin)
    · rw [run_compileJavascriptExpression hpln hmethods hmethod (writes_map args)]
      simp only [hfits, hpln, true_and, Option.some.injEq, Invocation.mk.injEq, List.map_inj_left, LuaArg.arrives_eq_iff]
    · refine iff_of_false (fun h => hpln (plainName_of_run h)) fun h => hpln h.2.1
  · rw [if_neg hfits]
    exact iff_of_false (fun h => by cases h) fun h => hfits h.1

end Calls

/-! ### A page with one method -/

def showName : Bytes := utf8 "show"

def showPage : Page where
  plugins name := if name = utf8 "viewer" then some fun method => method = showName else none
  isIdentifierName name := name = showName
  number? _ := none
  plain_of_isIdentifierName name h := by
    rw [of_decide_eq_true h]
    decide
  isIdentifierName_of_method plugin methods name h := by
    split at h
    · rw [← Option.some.inj h]
      exact id
    · cases h

def showEnv : FrontendEnv := ⟨echoState, wideNumbers, fun _ => [], showPage⟩

theorem plugins_showEnv : showEnv.page.plugins (utf8 "viewer") = some fun method => decide (method = showName) := rfl

theorem show_exported : decide (utf8 "show" = showName) = true := by decide

theorem plainName_viewer : PlainName (utf8 "viewer") := by decide +kernel

theorem arguments_preserved_show :
    callFrontendMethod showEnv 1 (utf8 "viewer") (utf8 "show") [] [.boolean true, .string (utf8 "hello")] =
      some ⟨utf8 "viewer", utf8 "show", [.boolean true, .string (Utf16.units "hello")]⟩ :=
  (arguments_preserved_iff 1 [] plugins_showEnv show_exported [.boolean true, .string "hello"]).2
    ⟨by decide, plainName_viewer, by simp [LuaArg.Survives]⟩

theorem integer_arrives_as_string :
    callFrontendMethod showEnv 1 (utf8 "viewer") (utf8 "show") [] [.number (.finite 5)] ≠
      some ⟨utf8 "viewer", utf8 "show", [.number 5]⟩ := by
  have h := callFrontendMethod_eq 1 [] plugins_showEnv show_exported [.integer 5 (by decide)]
  rw [run_compileJavascriptExpression plainName_viewer plugins_showEnv show_exported (writes_map _)] at h
  rw [show [LuaValue.number (.finite 5)] = [LuaArg.integer 5 (by decide)].map LuaArg.toLua from rfl, h]
  decide

end CloudeLoader.Engine
