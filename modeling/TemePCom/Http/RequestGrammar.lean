/-
TemePCom/Http/RequestGrammar.lean

The requests as a server reads them.

The grammar (`readMessage`) knows nothing of the client: a start line of three parts, a
line `Name: value` for each field up to an empty line, spaces at the end of a value
ignored, and as many bytes of body as `Content-Length` announces.  A message written
line by line is read back (`readMessage_encode`), and the three builders write such
messages (`build_eq_encode`).

What is left is what they write: `compute_post_request` the cookies themselves, the
other two a `"; "` behind each cookie that is equal to the last, which the grammar
takes for a part of the value (`requestRoundTrip_iff`).
-/
import TemePCom.Lib.Lines
import TemePCom.Http.Response
import TemePCom.Http.Requests

namespace TemePCom.Http

open Decimal Lines

/-! ### The grammar -/

/-- A request as it is read. -/
structure Message where
  method : Bytes
  target : Bytes
  version : Bytes
  fields : List (Bytes × Bytes)
  body : Bytes
  deriving DecidableEq

/-- The three parts of a start line. -/
def readStart (line : Bytes) : Option (Bytes × Bytes × Bytes) := do
  let (method, rest) ← cut [32] line
  let (target, version) ← cut [32] rest
  some (method, target, version)

/-- A value without the spaces at its end. -/
def trimEnd (value : Bytes) : Bytes := value.rdropWhile (· = 32)

/-- A line `Name: value`. -/
def readField (line : Bytes) : Option (Bytes × Bytes) :=
  (cut [58, 32] line).map fun field => (field.1, trimEnd field.2)

/-- A numeral number. -/
def readDecimal (text : Bytes) : Option ℕ :=
  if text ≠ [] ∧ ∀ c ∈ text, isDigit c then some (digitsValue text) else none

/-- The announced length of the body; there is none without a field that says so. -/
def contentLength (fields : List (Bytes × Bytes)) : Option ℕ :=
  match fields.lookup (ascii "Content-Length") with
  | none => some 0
  | some value => readDecimal value

/-- The message at the front of a text, and what follows it. -/
def readMessage (text : Bytes) : Option (Message × Bytes) := do
  let (lines, rest) ← readLines crlf (List.cons_ne_nil _ _) text
  let (method, target, version) ← lines.head?.bind readStart
  let fields ← lines.tail.mapM readField
  let length ← contentLength fields
  if rest.length < length then none
  else some (⟨method, target, version, fields, rest.take length⟩, rest.drop length)

/-! ### Messages written line by line -/

/-- A field's line. -/
def fieldLine (field : Bytes × Bytes) : Bytes := field.1 ++ ([58, 32] ++ field.2)

/-- A message: its start line, its fields, the blank line and the body. -/
def encode (start : Bytes) (fields : List (Bytes × Bytes)) (body : Bytes) : Bytes :=
  block (start :: fields.map fieldLine) ++ (crlf ++ body)

/-- Free of line ends. -/
def OneLine (text : Bytes) : Prop := ∀ c ∈ text, c ≠ 13 ∧ c ≠ 10

theorem OneLine.notMem {text : Bytes} (h : OneLine text) : 13 ∉ text := fun hc => (h 13 hc).1 rfl

/-- A field that can be written: a name without colon, no line ends. -/
def FieldOk (field : Bytes × Bytes) : Prop := 58 ∉ field.1 ∧ 13 ∉ field.1 ∧ 13 ∉ field.2

theorem readField_fieldLine {field : Bytes × Bytes} (h : FieldOk field) :
    readField (fieldLine field) = some (field.1, trimEnd field.2) := by
  rw [readField, fieldLine, cut_append h.1]
  rfl

theorem mapM_readField {fields : List (Bytes × Bytes)} (h : ∀ field ∈ fields, FieldOk field) :
    (fields.map fieldLine).mapM readField =
      some (fields.map fun field => (field.1, trimEnd field.2)) := by
  induction fields with
  | nil => rfl
  | cons field fields ih =>
    rw [List.map_cons, List.mapM_cons, readField_fieldLine (h field List.mem_cons_self),
      ih fun f hf => h f (List.mem_cons_of_mem _ hf)]
    rfl

theorem readStart_eq {method target version : Bytes} (hmethod : 32 ∉ method)
    (htarget : 32 ∉ target) :
    readStart (method ++ ([32] ++ (target ++ ([32] ++ version)))) =
      some (method, target, version) := by
  rw [readStart, cut_append hmethod]
  show (cut [32] (target ++ ([32] ++ version))).bind _ = _
  rw [cut_append htarget]
  rfl

theorem fieldLine_ok {field : Bytes × Bytes} (h : FieldOk field) :
    fieldLine field ≠ [] ∧ 13 ∉ fieldLine field := by
  refine ⟨by simp [fieldLine], ?_⟩
  simp only [fieldLine, List.mem_append, List.mem_cons, List.not_mem_nil, or_false]
  rintro (hname | (hsep | hsep) | hvalue)
  exacts [h.2.1 hname, absurd hsep (by decide), absurd hsep (by decide), h.2.2 hvalue]

/-- The lines of a message, and its body. -/
theorem readLines_encode {start : Bytes} {fields : List (Bytes × Bytes)} (body : Bytes)
    (hstart : start ≠ [] ∧ 13 ∉ start) (hfields : ∀ field ∈ fields, FieldOk field) :
    readLines crlf (List.cons_ne_nil _ _) (encode start fields body) =
      some (start :: fields.map fieldLine, body) := by
  show readLines (13 :: [10]) _ _ = _
  refine readLines_lines ?_ body
  intro line hline
  rcases List.mem_cons.mp hline with rfl | hline
  · exact hstart
  · obtain ⟨field, hfield, rfl⟩ := List.mem_map.mp hline
    exact fieldLine_ok (hfields field hfield)

theorem startLine_ok {method target version : Bytes} (hmethod : 13 ∉ method)
    (htarget : 13 ∉ target) (hversion : 13 ∉ version) :
    method ++ ([32] ++ (target ++ ([32] ++ version))) ≠ [] ∧
      13 ∉ method ++ ([32] ++ (target ++ ([32] ++ version))) := by
  refine ⟨by simp, ?_⟩
  simp only [List.mem_append, List.mem_singleton]
  rintro (h | h | h | h | h)
  exacts [hmethod h, absurd h (by decide), htarget h, absurd h (by decide), hversion h]

/-- **A message is read back**, with the spaces at the end of its values gone, if its
length field announces its body. -/
theorem readMessage_encode {method target version : Bytes} {fields : List (Bytes × Bytes)}
    {body : Bytes} (hmethod : 32 ∉ method ∧ 13 ∉ method) (htarget : 32 ∉ target ∧ 13 ∉ target)
    (hversion : 13 ∉ version) (hfields : ∀ field ∈ fields, FieldOk field)
    (hlength : contentLength (fields.map fun field => (field.1, trimEnd field.2)) =
      some body.length) :
    readMessage (encode (method ++ ([32] ++ (target ++ ([32] ++ version)))) fields body) =
      some (⟨method, target, version, fields.map fun field => (field.1, trimEnd field.2), body⟩,
        []) := by
  rw [readMessage, readLines_encode body (startLine_ok hmethod.2 htarget.2 hversion) hfields]
  show (readStart _).bind _ = _
  rw [readStart_eq hmethod.1 htarget.1]
  show ((fields.map fieldLine).mapM readField).bind _ = _
  rw [mapM_readField hfields]
  show (contentLength (fields.map fun field => (field.1, trimEnd field.2))).bind _ = _
  rw [hlength]
  show (if body.length < body.length then none else _) = _
  rw [if_neg (Nat.lt_irrefl _), List.take_length, List.drop_length]

/-! ### Decimals -/

theorem readDecimal_numeral (n : ℕ) : readDecimal (numeral n) = some n := by
  rw [readDecimal, if_pos ⟨numeral_ne_nil n, fun c hc => isDigit_of_mem_numeral hc⟩,
    digitsValue_numeral]

theorem trimEnd_of_notMem {text : Bytes} (h : 32 ∉ text) : trimEnd text = text := by
  refine List.rdropWhile_eq_self_iff.mpr fun hne heq => h ?_
  rw [← of_decide_eq_true heq]
  exact List.getLast_mem hne

/-- Only the spaces of a `"; "` at the end go. -/
theorem trimEnd_mark (cookie : Bytes) : trimEnd (cookie ++ ascii "; ") = cookie ++ [59] := by
  have hmark : cookie ++ ascii "; " = cookie ++ [59] ++ [32] := by
    rw [List.append_assoc]
    rfl
  rw [trimEnd, hmark, List.rdropWhile_concat_pos _ _ _ (by decide),
    List.rdropWhile_concat_neg _ _ _ (by decide)]

/-! ### What the builders write -/

/-- The parts of a request. -/
structure Parts where
  host : Bytes
  url : Bytes
  contentType : Bytes
  cookies : List Bytes
  auth : Bytes
  json : Bytes
  host_line : OneLine host
  url_line : OneLine url
  url_space : 32 ∉ url
  type_line : OneLine contentType
  cookies_line : ∀ cookie ∈ cookies, OneLine cookie
  cookies_mark : ∀ cookie ∈ cookies, 59 ∉ cookie
  auth_line : OneLine auth

/-- The request that is built; the flag says by which function. -/
def Parts.build (p : Parts) : Flag → Bytes
  | .post => computePostRequest p.host p.url p.contentType p.cookies p.json p.auth
  | .get => computeGetRequest p.host p.url p.cookies p.auth
  | .delete => computeDeleteRequest p.host p.url p.contentType p.cookies p.auth

def Flag.method : Flag → Bytes
  | .post => ascii "POST"
  | .get => ascii "GET"
  | .delete => ascii "DELETE"

/-- What is written for the cookies. -/
def Parts.cookieValues (p : Parts) : Flag → List Bytes
  | .post => p.cookies
  | _ => p.cookies.map fun cookie =>
    cookie ++ if some cookie = p.cookies.getLast? then ascii "; " else []

def Parts.body (p : Parts) : Flag → Bytes
  | .post => p.json
  | _ => []

/-- The fields that come with a body. -/
def Parts.bodyFields (p : Parts) : Flag → List (Bytes × Bytes)
  | .post => [(ascii "Content-Type", p.contentType),
      (ascii "Content-Length", numeral p.json.length)]
  | _ => []

def Parts.authFields (p : Parts) : List (Bytes × Bytes) :=
  if p.auth ≠ [] then [(ascii "Authorization", p.auth)] else []

def Parts.fields (p : Parts) (flag : Flag) : List (Bytes × Bytes) :=
  (ascii "Host", p.host) :: (p.bodyFields flag ++
    ((p.cookieValues flag).map (fun cookie => (ascii "Cookie", cookie)) ++ p.authFields))

variable {p : Parts} {flag : Flag}

theorem block_append (a b : List Bytes) : block (a ++ b) = block a ++ block b :=
  List.flatMap_append

theorem block_authFields (p : Parts) :
    block (p.authFields.map fieldLine) = authLine p.auth := by
  unfold Parts.authFields authLine
  split
  · show (ascii "Authorization" ++ ([58, 32] ++ p.auth)) ++ crlf ++ [] = _
    rw [List.append_nil, ← List.append_assoc (ascii "Authorization")]
    rfl
  · rfl

theorem block_cookies (values : List Bytes) :
    block ((values.map fun cookie => (ascii "Cookie", cookie)).map fieldLine) =
      values.flatMap fun cookie => computeString (ascii "Cookie: " ++ cookie) := by
  rw [block, List.map_map, List.flatMap_map]
  rfl

theorem block_fields (p : Parts) (flag : Flag) : block ((p.fields flag).map fieldLine) =
    computeString (ascii "Host: " ++ p.host) ++ (block ((p.bodyFields flag).map fieldLine) ++
      ((p.cookieValues flag).flatMap (fun cookie => computeString (ascii "Cookie: " ++ cookie)) ++
        authLine p.auth)) := by
  rw [Parts.fields, List.map_cons, block_cons, List.map_append, List.map_append, block_append,
    block_append, block_cookies, block_authFields, fieldLine, ← List.append_assoc (ascii "Host")]
  rfl

theorem startLine_eq (flag : Flag) (url : Bytes) :
    flag.text ++ url ++ ascii " HTTP/1.1" = flag.method ++ ([32] ++ (url ++ ([32] ++ http11))) := by
  have htext : flag.text = flag.method ++ [32] := by cases flag <;> rfl
  rw [htext, List.append_assoc, List.append_assoc]
  rfl

theorem markedCookies_eq (cookies : List Bytes) : markedCookies cookies =
    (cookies.map fun cookie =>
      cookie ++ if some cookie = cookies.getLast? then ascii "; " else []).flatMap
        fun cookie => computeString (ascii "Cookie: " ++ cookie) := by
  rw [List.flatMap_map, markedCookies]
  simp only [List.append_assoc]

theorem encode_fields (p : Parts) (flag : Flag) :
    encode (flag.method ++ ([32] ++ (p.url ++ ([32] ++ http11)))) (p.fields flag) (p.body flag) =
      requestHead flag p.host p.url ++ (block ((p.bodyFields flag).map fieldLine) ++
        ((p.cookieValues flag).flatMap (fun cookie => computeString (ascii "Cookie: " ++ cookie)) ++
          (authLine p.auth ++ (crlf ++ p.body flag)))) := by
  rw [encode, block_cons, block_fields, ← startLine_eq, requestHead]
  show computeString _ ++ _ ++ _ = _
  simp only [List.append_assoc]

/-- **The builders write messages**, line by line. -/
theorem build_eq_encode (p : Parts) (flag : Flag) : p.build flag =
    encode (flag.method ++ ([32] ++ (p.url ++ ([32] ++ http11)))) (p.fields flag)
      (p.body flag) := by
  rw [encode_fields]
  cases flag with
  | post =>
    have hfields : block ((p.bodyFields .post).map fieldLine) =
        computeString (ascii "Content-Type: " ++ p.contentType) ++
          computeString (ascii "Content-Length: " ++ numeral p.json.length) := by
      show (ascii "Content-Type" ++ ([58, 32] ++ p.contentType)) ++ crlf ++
        ((ascii "Content-Length" ++ ([58, 32] ++ numeral p.json.length)) ++ crlf ++ []) = _
      rw [List.append_nil, ← List.append_assoc (ascii "Content-Type"),
        ← List.append_assoc (ascii "Content-Length")]
      rfl
    show requestHead .post p.host p.url ++ _ ++ _ ++ plainCookies p.cookies ++ authLine p.auth ++
      crlf ++ p.json = _
    rw [hfields]
    simp only [List.append_assoc]
    rfl
  | get | delete =>
    show requestHead _ p.host p.url ++ markedCookies p.cookies ++ authLine p.auth ++ crlf = _
    rw [markedCookies_eq]
    simp only [List.append_assoc]
    show _ = _ ++ ([] ++ (_ ++ (_ ++ (crlf ++ []))))
    rw [List.append_nil, List.nil_append]
    rfl

/-! ### Reading them -/

theorem cookieValues_notMem {value : Bytes} (h : value ∈ p.cookieValues flag) : 13 ∉ value := by
  have hmarked : value ∈ p.cookies.map (fun cookie =>
      cookie ++ if some cookie = p.cookies.getLast? then ascii "; " else []) → 13 ∉ value := by
    intro hmem
    obtain ⟨cookie, hcookie, rfl⟩ := List.mem_map.mp hmem
    rw [List.mem_append, not_or]
    refine ⟨(p.cookies_line cookie hcookie).notMem, ?_⟩
    split <;> decide
  cases flag with
  | post => exact (p.cookies_line value h).notMem
  | get | delete => exact hmarked h

theorem fieldOk {name value : Bytes} (hname : 58 ∉ name ∧ 13 ∉ name) (hvalue : 13 ∉ value) :
    FieldOk (name, value) := ⟨hname.1, hname.2, hvalue⟩

theorem fieldOk_of_mem {field : Bytes × Bytes} (h : field ∈ p.fields flag) : FieldOk field := by
  rw [Parts.fields, List.mem_cons, List.mem_append, List.mem_append] at h
  rcases h with rfl | hbody | hcookie | hauth
  · exact fieldOk (by decide) p.host_line.notMem
  · cases flag with
    | post =>
      rcases List.mem_cons.mp hbody with rfl | hlength
      · exact fieldOk (by decide) p.type_line.notMem
      · rw [List.mem_singleton.mp hlength]
        exact fieldOk (by decide) fun hcr =>
          absurd (isDigit_of_mem_numeral hcr) (by decide)
    | get | delete => cases hbody
  · obtain ⟨value, hvalue, rfl⟩ := List.mem_map.mp hcookie
    exact fieldOk (by decide) (cookieValues_notMem hvalue)
  · unfold Parts.authFields at hauth
    split at hauth
    · rw [List.mem_singleton.mp hauth]
      exact fieldOk (by decide) p.auth_line.notMem
    · cases hauth

/-- The fields as they are read. -/
def Parts.readFields (p : Parts) (flag : Flag) : List (Bytes × Bytes) :=
  (p.fields flag).map fun field => (field.1, trimEnd field.2)

theorem readFields_eq (p : Parts) (flag : Flag) : p.readFields flag =
    (ascii "Host", trimEnd p.host) ::
      ((p.bodyFields flag).map (fun field => (field.1, trimEnd field.2)) ++
        (((p.cookieValues flag).map trimEnd).map (fun cookie => (ascii "Cookie", cookie)) ++
          p.authFields.map fun field => (field.1, trimEnd field.2))) := by
  rw [Parts.readFields, Parts.fields, List.map_cons, List.map_append, List.map_append,
    List.map_map, List.map_map]
  rfl

theorem lookup_cookies {name : Bytes} (hname : name ≠ ascii "Cookie") (values : List Bytes) :
    (values.map fun cookie => (ascii "Cookie", cookie)).lookup name = none := by
  rw [List.lookup_eq_none_iff]
  intro field hfield
  obtain ⟨value, -, rfl⟩ := List.mem_map.mp hfield
  exact bne_iff_ne.mpr hname

/-- The fields that are not cookies. -/
theorem lookup_readFields {name : Bytes} (hname : name ≠ ascii "Cookie") (p : Parts)
    (flag : Flag) : (p.readFields flag).lookup name =
      if name = ascii "Host" then some (trimEnd p.host)
      else (((p.bodyFields flag).map fun field => (field.1, trimEnd field.2)).lookup name).or
        ((p.authFields.map fun field => (field.1, trimEnd field.2)).lookup name) := by
  rw [readFields_eq, List.lookup_cons, List.lookup_append, List.lookup_append,
    lookup_cookies hname, Option.none_or]
  split_ifs with hhost
  · rw [hhost, beq_self_eq_true]
  · rw [beq_eq_false_iff_ne.mpr hhost]

theorem contentLength_readFields (p : Parts) (flag : Flag) :
    contentLength (p.readFields flag) = some (p.body flag).length := by
  have hspace : 32 ∉ numeral p.json.length := fun h =>
    absurd (isDigit_of_mem_numeral h) (by decide)
  have hauth : (p.authFields.map fun field => (field.1, trimEnd field.2)).lookup
      (ascii "Content-Length") = none := by
    unfold Parts.authFields
    split <;> rfl
  rw [contentLength, lookup_readFields (by decide), if_neg (by decide), hauth, Option.or_none]
  cases flag with
  | post =>
    show readDecimal (trimEnd (numeral p.json.length)) = _
    rw [trimEnd_of_notMem hspace, readDecimal_numeral]
    rfl
  | get | delete => rfl

theorem Flag.method_ok (flag : Flag) : 32 ∉ flag.method ∧ 13 ∉ flag.method := by
  cases flag <;> decide

/-- The lines of a request that is built. -/
theorem readLines_build (p : Parts) (flag : Flag) :
    readLines crlf (List.cons_ne_nil _ _) (p.build flag) =
      some ((flag.text ++ p.url ++ ascii " HTTP/1.1") :: (p.fields flag).map fieldLine,
        p.body flag) := by
  rw [build_eq_encode, startLine_eq]
  exact readLines_encode (p.body flag)
    (startLine_ok flag.method_ok.2 p.url_line.notMem (by decide))
    fun field hfield => fieldOk_of_mem hfield

/-- The request that is built is read as its fields and its body. -/
theorem readMessage_build (p : Parts) (flag : Flag) : readMessage (p.build flag) =
    some (⟨flag.method, p.url, http11, p.readFields flag, p.body flag⟩, []) := by
  rw [build_eq_encode]
  exact readMessage_encode flag.method_ok ⟨p.url_space, p.url_line.notMem⟩ (by decide)
    (fun field hfield => fieldOk_of_mem hfield) (contentLength_readFields p flag)

/-- What a server makes of a request. -/
structure Decoded where
  method : Bytes
  target : Bytes
  host : Option Bytes
  cookies : List Bytes
  authorization : Option Bytes
  body : Bytes
  /-- What is left over. -/
  rest : Bytes
  deriving DecidableEq

def decode (text : Bytes) : Option Decoded :=
  (readMessage text).map fun r =>
    { method := r.1.method
      target := r.1.target
      host := r.1.fields.lookup (ascii "Host")
      cookies := (r.1.fields.filter fun field => field.1 = ascii "Cookie").map Prod.snd
      authorization := r.1.fields.lookup (ascii "Authorization")
      body := r.1.body
      rest := r.2 }

/-- **What is read of a request**, whichever function has built it. -/
theorem decode_build (p : Parts) (flag : Flag) : decode (p.build flag) =
    some { method := flag.method
           target := p.url
           host := some (trimEnd p.host)
           cookies := (p.cookieValues flag).map trimEnd
           authorization := if p.auth ≠ [] then some (trimEnd p.auth) else none
           body := p.body flag
           rest := [] } := by
  have hauth : (p.readFields flag).lookup (ascii "Authorization") =
      if p.auth ≠ [] then some (trimEnd p.auth) else none := by
    have hbody : ((p.bodyFields flag).map fun field => (field.1, trimEnd field.2)).lookup
        (ascii "Authorization") = none := by cases flag <;> rfl
    rw [lookup_readFields (by decide), if_neg (by decide), hbody, Option.none_or,
      Parts.authFields]
    split_ifs <;> rfl
  have hcookies : ((p.readFields flag).filter fun field => field.1 = ascii "Cookie").map Prod.snd =
      (p.cookieValues flag).map trimEnd := by
    have hbody : ((p.bodyFields flag).map fun field => (field.1, trimEnd field.2)).filter
        (fun field => field.1 = ascii "Cookie") = [] := by cases flag <;> rfl
    have hrest : (p.authFields.map fun field => (field.1, trimEnd field.2)).filter
        (fun field => field.1 = ascii "Cookie") = [] := by
      unfold Parts.authFields
      split <;> rfl
    have hall : (((p.cookieValues flag).map trimEnd).map
        fun cookie => (ascii "Cookie", cookie)).filter (fun field => field.1 = ascii "Cookie") =
          ((p.cookieValues flag).map trimEnd).map fun cookie => (ascii "Cookie", cookie) := by
      rw [List.filter_eq_self]
      intro field hfield
      obtain ⟨value, -, rfl⟩ := List.mem_map.mp hfield
      exact decide_eq_true rfl
    have hhost : ¬ ascii "Host" = ascii "Cookie" := by decide
    rw [readFields_eq, List.filter_cons_of_neg (by rwa [decide_eq_true_eq]), List.filter_append,
      List.filter_append, hbody, hall, hrest, List.nil_append, List.append_nil, List.map_map]
    exact List.map_id _
  rw [decode, readMessage_build, Option.map_some, hauth, hcookies, lookup_readFields (by decide),
    if_pos rfl]

/-! ### The round trip -/

/-- What is read of the request is what it was built from. -/
def RoundTrip (p : Parts) (flag : Flag) : Prop :=
  decode (p.build flag) =
    some { method := flag.method
           target := p.url
           host := some (trimEnd p.host)
           cookies := p.cookies.map trimEnd
           authorization := if p.auth ≠ [] then some (trimEnd p.auth) else none
           body := p.body flag
           rest := [] }

/-- Two builders encode the cookies and the authorization alike. -/
def SameEncoding (p : Parts) (flag flag' : Flag) : Prop :=
  (decode (p.build flag)).map (fun d => (d.cookies, d.authorization)) =
    (decode (p.build flag')).map fun d => (d.cookies, d.authorization)

/-- The mark behind the last cookie is read as a part of it. -/
theorem map_trimEnd_marked (h : ∀ cookie ∈ p.cookies, 59 ∉ cookie) :
    (p.cookies.map fun cookie =>
      cookie ++ if some cookie = p.cookies.getLast? then ascii "; " else []).map trimEnd =
        p.cookies.map trimEnd ↔ p.cookies = [] := by
  constructor
  · intro heq
    by_contra hne
    -- the last cookie
    have hlast := List.getLast_mem hne
    rw [List.map_map] at heq
    have hvalue := List.map_inj_left.mp heq _ hlast
    rw [Function.comp_apply, if_pos (List.getLast?_eq_some_getLast hne).symm,
      trimEnd_mark] at hvalue
    have hmem : 59 ∈ trimEnd (p.cookies.getLast hne) := by
      rw [← hvalue]
      simp
    exact h _ hlast ((List.rdropWhile_prefix _ _).subset hmem)
  · intro hnil
    rw [hnil]
    rfl

theorem roundTrip_iff_cookieValues : RoundTrip p flag ↔
    (p.cookieValues flag).map trimEnd = p.cookies.map trimEnd := by
  rw [RoundTrip, decode_build]
  simp

theorem sameEncoding_iff_cookieValues {flag' : Flag} : SameEncoding p flag flag' ↔
    (p.cookieValues flag).map trimEnd = (p.cookieValues flag').map trimEnd := by
  rw [SameEncoding, decode_build, decode_build]
  simp

theorem cookieValues_eq_iff (p : Parts) (flag : Flag) :
    (p.cookieValues flag).map trimEnd = p.cookies.map trimEnd ↔
      flag = .post ∨ p.cookies = [] := by
  cases flag with
  | post => exact iff_of_true rfl (Or.inl rfl)
  | get => exact (map_trimEnd_marked p.cookies_mark).trans (by simp)
  | delete => exact (map_trimEnd_marked p.cookies_mark).trans (by simp)

/-- **Which requests are read as what they were built from**: every POST, and of the
others those without cookies; and only without cookies do the builders agree. -/
theorem requestRoundTrip_iff (p : Parts) :
    (∀ flag, RoundTrip p flag ↔ flag = .post ∨ p.cookies = []) ∧
      ((∀ flag flag', SameEncoding p flag flag') ↔ p.cookies = []) := by
  have hflag : ∀ flag, RoundTrip p flag ↔ flag = .post ∨ p.cookies = [] := fun flag =>
    roundTrip_iff_cookieValues.trans (cookieValues_eq_iff p flag)
  refine ⟨hflag, ?_⟩
  constructor
  · intro hsame
    have hget := sameEncoding_iff_cookieValues.mp (hsame .get .post)
    exact ((cookieValues_eq_iff p .get).mp hget).resolve_left (by decide)
  · intro hnil flag flag'
    rw [sameEncoding_iff_cookieValues, (cookieValues_eq_iff p flag).mpr (Or.inr hnil),
      (cookieValues_eq_iff p flag').mpr (Or.inr hnil)]

/-- The request of `enter_library` with a cookie. -/
def cookieParts : Parts where
  host := host
  url := ascii "/api/v1/tema/library/access"
  contentType := ascii "application/json"
  cookies := [ascii "connect.sid=1"]
  auth := []
  json := []
  host_line := by unfold OneLine; decide +kernel
  url_line := by unfold OneLine; decide +kernel
  url_space := by decide +kernel
  type_line := by unfold OneLine; decide +kernel
  cookies_line := by unfold OneLine; decide +kernel
  cookies_mark := by decide +kernel
  auth_line := by unfold OneLine; decide +kernel

/-- Its cookie is read with a semicolon, that of a POST request without. -/
theorem not_roundTrip_cookieParts : ¬ RoundTrip cookieParts .get ∧ ¬ RoundTrip cookieParts .delete ∧
    ¬ SameEncoding cookieParts .post .get := by
  refine ⟨?_, ?_, ?_⟩
  · rw [roundTrip_iff_cookieValues]
    decide +kernel
  · rw [roundTrip_iff_cookieValues]
    decide +kernel
  · rw [sameEncoding_iff_cookieValues]
    decide +kernel

end TemePCom.Http
