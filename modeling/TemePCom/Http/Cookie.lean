/-
TemePCom/Http/Cookie.lean

The cookie of a login.

`login_cookie_handler` searches the whole response, for `Set-Cookie: ` and from there
for a semicolon, and neither search knows of lines.  The first one may stop inside of
another field (or of the status line); the second runs on over the end of a line
without a semicolon, and what is stored then has line ends in it, which
`compute_get_request` writes out.

What is found is a matter of the first line that has the marker anywhere
(`markedLine`), and of the text behind it there (`cookieIn_text_iff`).
-/
import TemePCom.Http.RequestGrammar
import TemePCom.Http.Outcomes

namespace TemePCom.Http

open Lines

/-- What the handler searches for. -/
def cookieMarker : Bytes := ascii "Set-Cookie: "

/-! ### Searching line by line -/

theorem strstr_append_cons {pat a b : Bytes} {c : UInt8} (hc : c ∉ pat) (hpat : pat ≠ []) :
    strstr (a ++ c :: b) pat =
      match strstr a pat with
      | some start => some (start ++ c :: b)
      | none => strstr b pat := by
  unfold strstr
  rw [first?_append_cons hc hpat]
  cases ha : Search.first? pat a with
  | some i =>
    have hle := ((Search.first?_eq_some_iff hpat).mp ha).here.length_le hpat
    show some ((a ++ c :: b).drop i) = some (a.drop i ++ c :: b)
    rw [List.drop_append_of_le_length (by omega)]
  | none =>
    rw [Option.none_or, Option.map_map]
    show Option.map _ _ = Option.map b.drop (Search.first? pat b)
    congr 1
    funext j
    show (a ++ c :: b).drop (a.length + 1 + j) = b.drop j
    rw [List.append_cons, ← List.drop_drop]
    congr 1
    exact List.drop_left' (by simp)

/-- The first line with the marker, from the marker on. -/
def markedLine (lines : List Bytes) : Option Bytes :=
  lines.findSome? fun line => strstr line cookieMarker

theorem strstr_line (line rest : Bytes) : strstr (line ++ crlf ++ rest) cookieMarker =
    match strstr line cookieMarker with
    | some start => some (start ++ 13 :: 10 :: rest)
    | none => strstr rest cookieMarker := by
  have hline : line ++ crlf ++ rest = line ++ 13 :: ([] ++ 10 :: rest) := by
    rw [List.append_assoc]
    rfl
  have hnone : strstr [] cookieMarker = none := by decide
  rw [hline, strstr_append_cons (by decide) (by decide),
    strstr_append_cons (by decide) (by decide), hnone]
  rfl

/-- **The search over a block of lines** finds the marker in the first line that has it. -/
theorem strstr_block (lines : List Bytes) (rest : Bytes) :
    (markedLine lines = none ∧
      strstr (block lines ++ rest) cookieMarker = strstr rest cookieMarker) ∨
    ∃ start tail, markedLine lines = some start ∧
      strstr (block lines ++ rest) cookieMarker = some (start ++ 13 :: tail) := by
  induction lines with
  | nil => exact Or.inl ⟨rfl, rfl⟩
  | cons line lines ih =>
    rw [block_cons, List.append_assoc, strstr_line, markedLine, List.findSome?_cons]
    cases strstr line cookieMarker with
    | some start => exact Or.inr ⟨start, _, rfl, rfl⟩
    | none => exact ih

/-! ### What is stored -/

/-- What is found starts with the marker. -/
theorem exists_of_strstr {text start : Bytes} (h : strstr text cookieMarker = some start) :
    ∃ value, start = cookieMarker ++ value := by
  obtain ⟨i, hi, rfl⟩ := Option.map_eq_some_iff.mp h
  obtain ⟨value, hvalue⟩ := ((Search.first?_eq_some_iff (by decide)).mp hi).here
  exact ⟨value, hvalue.symm⟩

/-- The cookie is what stands between the marker and the next semicolon. -/
theorem cookieIn_iff {text cookie : Bytes} : CookieIn text cookie ↔
    ∃ start, strstr text cookieMarker = some start ∧ 59 ∉ cookie ∧
      cookie ++ [59] <+: start.drop 12 := by
  have hmark : 59 ∉ cookieMarker := by decide
  constructor
  · rintro ⟨start, k, hstart, hk, rfl⟩
    obtain ⟨value, rfl⟩ := exists_of_strstr hstart
    have hfirst := (Search.first?_eq_some_iff (by decide)).mp hk
    -- the semicolon is not in the marker
    have hlen : 12 ≤ k := by
      by_contra hlt
      exact Search.not_at_of_notMem hmark (Nat.lt_of_not_le hlt) hfirst.here
    obtain ⟨j, rfl⟩ := Nat.exists_eq_add_of_le hlen
    have hvalue : Search.IsFirst [59] value j :=
      ⟨Search.at_append_length_iff.mp hfirst.here, fun i hi hat =>
        hfirst.before (12 + i) (by omega) (Search.at_append_length_iff.mpr hat)⟩
    have htake : ((cookieMarker ++ value).take (12 + j)).drop 12 = value.take j := by
      rw [List.drop_take, Nat.add_sub_cancel_left]
      rfl
    rw [htake]
    exact ⟨_, hstart, hvalue.notMem_take, hvalue.here.take_append_prefix⟩
  · rintro ⟨start, hstart, hcookie, rest, hrest⟩
    obtain ⟨value, rfl⟩ := exists_of_strstr hstart
    obtain rfl : cookie ++ [59] ++ rest = value := hrest
    have hfirst : Search.IsFirst [59] ((cookieMarker ++ cookie) ++ ([59] ++ rest))
        (cookieMarker ++ cookie).length :=
      isFirst_append (fun h => (List.mem_append.mp h).elim hmark hcookie) rest
    have hsplit : cookieMarker ++ (cookie ++ [59] ++ rest) =
        (cookieMarker ++ cookie) ++ ([59] ++ rest) := by
      simp only [List.append_assoc]
    refine ⟨_, _, hstart, (Search.first?_eq_some_iff (by decide)).mpr (hsplit ▸ hfirst), ?_⟩
    rw [hsplit, List.take_left]
    rfl

/-- The text stands somewhere in the response as the cookie of a `Set-Cookie`. -/
def TakenFrom (response cookie : Bytes) : Prop :=
  ∃ before after, response = before ++ (cookieMarker ++ (cookie ++ ([59] ++ after)))

theorem CookieIn.takenFrom {response cookie : Bytes} (h : CookieIn response cookie) :
    TakenFrom response cookie := by
  obtain ⟨start, hstart, -, after, hafter⟩ := cookieIn_iff.mp h
  obtain ⟨value, rfl⟩ := exists_of_strstr hstart
  obtain rfl : cookie ++ [59] ++ after = value := hafter
  obtain ⟨i, -, hdrop⟩ := Option.map_eq_some_iff.mp hstart
  refine ⟨response.take i, after, ?_⟩
  conv_lhs => rw [← List.take_append_drop i response, hdrop, List.append_assoc cookie]

/-- **Which cookie is found in a response**: it stands, with a semicolon behind it, in
the first line that has the marker. -/
theorem cookieIn_text_iff (r : Response) {cookie start : Bytes} (hcookie : 59 ∉ cookie)
    (hline : 13 ∉ cookie) (hstart : markedLine r.lines = some start) :
    CookieIn (cString r.text) cookie ↔ cookie ++ [59] <+: start.drop 12 := by
  have htext : cString r.text = block r.lines ++ (crlf ++ cString r.body) := by
    rw [r.cString_text, Response.header, List.append_assoc]
  rcases strstr_block r.lines (crlf ++ cString r.body) with ⟨hnone, -⟩ | ⟨start', tail, hs, hfound⟩
  · rw [hstart] at hnone
    cases hnone
  obtain rfl := Option.some.inj (hstart.symm.trans hs)
  have hlen : 12 ≤ start.length := by
    obtain ⟨line, -, hline⟩ := List.exists_of_findSome?_eq_some hstart
    obtain ⟨value, rfl⟩ := exists_of_strstr hline
    rw [List.length_append]
    exact Nat.le_add_right 12 _
  -- the cookie does not go on behind the end of the line
  have hprefix : cookie ++ [59] <+: (start ++ 13 :: tail).drop 12 ↔
      cookie ++ [59] <+: start.drop 12 := by
    rw [List.drop_append_of_le_length hlen]
    exact prefix_append_cons_iff (by simp [hline])
  rw [cookieIn_iff, htext, hfound, ← hprefix]
  simp [hcookie]

/-! ### Staying on the line -/

/-- `name=value` of a `Set-Cookie` line: up to the first semicolon, or all of it. -/
def cookieOf (value : Bytes) : Bytes := value.takeWhile (· ≠ 59)

theorem cookieOf_notMem (value : Bytes) : 59 ∉ cookieOf value := fun h => by
  simpa using List.mem_takeWhile_imp h

/-- The lines of a GET request with one cookie. -/
def cookieLines (host url cookie auth : Bytes) : List Bytes :=
  (Flag.get.text ++ url ++ ascii " HTTP/1.1") :: (ascii "Host: " ++ host) ::
    (ascii "Cookie: " ++ cookie ++ ascii "; ") ::
      if auth ≠ [] then [ascii "Authorization: " ++ auth] else []

/-- The handler stores the cookie of the line, which has no line end, and the requests
that are built with what is stored have no lines besides their own. -/
structure StaysOnLine (r : Response) (value : Bytes) (s : Session) : Prop where
  stored : loginCookieHandler (cString r.text) s = (exitSuccess, { s with
    loginCookie := cookieOf value
    isConnected := true })
  oneLine : OneLine (loginCookieHandler (cString r.text) s).2.loginCookie
  request : ∀ host url auth, OneLine host → OneLine url → 32 ∉ url → OneLine auth →
    readLines crlf (List.cons_ne_nil _ _)
      (computeGetRequest host url [(loginCookieHandler (cString r.text) s).2.loginCookie] auth) =
        some (cookieLines host url (loginCookieHandler (cString r.text) s).2.loginCookie auth, [])

theorem readLines_get {host url cookie auth : Bytes} (hhost : OneLine host) (hurl : OneLine url)
    (hspace : 32 ∉ url) (hauth : OneLine auth) (hline : OneLine cookie) (hmark : 59 ∉ cookie) :
    readLines crlf (List.cons_ne_nil _ _) (computeGetRequest host url [cookie] auth) =
      some (cookieLines host url cookie auth, []) := by
  let p : Parts :=
    { host := host, url := url, contentType := [], cookies := [cookie], auth := auth, json := []
      host_line := hhost
      url_line := hurl
      url_space := hspace
      type_line := fun c hc => nomatch hc
      cookies_line := fun c hc => List.mem_singleton.mp hc ▸ hline
      cookies_mark := fun c hc => List.mem_singleton.mp hc ▸ hmark
      auth_line := hauth }
  have hfields : (p.fields .get).map fieldLine = (ascii "Host: " ++ host) ::
      (ascii "Cookie: " ++ cookie ++ ascii "; ") ::
        if auth ≠ [] then [ascii "Authorization: " ++ auth] else [] := by
    have hcookie : p.cookieValues .get = [cookie ++ ascii "; "] := by
      show [cookie ++ if some cookie = some cookie then ascii "; " else []] = _
      rw [if_pos rfl]
    rw [Parts.fields, hcookie, Parts.authFields]
    show fieldLine (ascii "Host", host) :: fieldLine (ascii "Cookie", cookie ++ ascii "; ") ::
      (if auth ≠ [] then [(ascii "Authorization", auth)] else []).map fieldLine = _
    split_ifs <;> rfl
  have hlines := readLines_build p .get
  rw [hfields] at hlines
  exact hlines

/-- The handler succeeds with the cookie that is found. -/
theorem loginCookieHandler_eq_iff {response cookie : Bytes} {s : Session} :
    loginCookieHandler response s = (exitSuccess, { s with
      loginCookie := cookie
      isConnected := true }) ↔ CookieIn response cookie := by
  rcases loginCookieHandler_eq response s with ⟨cookie', hcookie', hset⟩ | ⟨hnone, hset⟩
  · rw [hset]
    constructor
    · intro heq
      have hloginCookie : cookie' = cookie := congrArg (fun x => x.2.loginCookie) heq
      rwa [← hloginCookie]
    · intro hcookie
      rw [hcookie'.unique hcookie]
  · rw [hset]
    refine iff_of_false (fun heq => ?_) fun hcookie => hnone ⟨cookie, hcookie⟩
    exact exitFailure_ne_exitSuccess (congrArg Prod.fst heq)

/-- **When the cookie stays on its line.**  For a response with a line
`Set-Cookie: value`: iff in the first line that has the marker its cookie stands behind
it, and a semicolon behind that. -/
theorem staysOnLine_iff (r : Response) (f : Field) (value : Bytes) (s : Session)
    (hf : f ∈ r.fields) (hvalue : f.line = cookieMarker ++ value) : StaysOnLine r value s ↔
      ∃ start, markedLine r.lines = some start ∧ cookieOf value ++ [59] <+: start.drop 12 := by
  have hclean : OneLine (cookieOf value) := fun c hc => by
    have hmem : c ∈ f.line := by
      rw [hvalue]
      exact List.mem_append_right _ ((List.takeWhile_prefix _).subset hc)
    exact ⟨(f.line_clean c hmem).1, (f.line_clean c hmem).2.1⟩
  -- the line itself has the marker
  obtain ⟨start, hstart⟩ : ∃ start, markedLine r.lines = some start := by
    have hzero : Search.IsFirst cookieMarker f.line 0 :=
      Search.isFirst_zero_iff.mpr ⟨value, hvalue.symm⟩
    have hfound : (strstr f.line cookieMarker).isSome = true := by
      rw [strstr, hzero.first?_eq (by decide)]
      rfl
    rw [← Option.isSome_iff_exists, markedLine, List.findSome?_isSome_iff]
    exact ⟨f.line, List.mem_cons_of_mem _ (List.mem_map_of_mem hf), hfound⟩
  have hstored : (loginCookieHandler (cString r.text) s = (exitSuccess, { s with
      loginCookie := cookieOf value
      isConnected := true })) ↔ cookieOf value ++ [59] <+: start.drop 12 :=
    loginCookieHandler_eq_iff.trans
      (cookieIn_text_iff r (cookieOf_notMem value) hclean.notMem hstart)
  constructor
  · intro h
    exact ⟨start, hstart, hstored.mp h.stored⟩
  · rintro ⟨start', hstart', hprefix⟩
    obtain rfl := Option.some.inj (hstart.symm.trans hstart')
    have hrun := hstored.mpr hprefix
    have hcookie : (loginCookieHandler (cString r.text) s).2.loginCookie = cookieOf value := by
      rw [hrun]
    refine ⟨hrun, ?_, ?_⟩
    · rw [hcookie]
      exact hclean
    · rw [hcookie]
      exact fun host url auth hhost hurl hspace hauth =>
        readLines_get hhost hurl hspace hauth hclean (cookieOf_notMem value)

/-- A `200 OK` with two fields. -/
def twoFields (f g : Field) : Response where
  version := http11
  status := 200
  reason := ascii "OK"
  fields := [f, g]
  body := []
  version_clean := http11_clean
  reason_clean := ok_clean

/-- A cookie with an attribute, and one without. -/
def pathCookie : Field where
  name := ascii "Set-Cookie"
  value := ascii " sid=1; Path=/"
  name_ne := by decide
  name_clean := by decide +kernel
  name_colon := by decide +kernel
  value_clean := by decide +kernel

def bareCookie : Field where
  name := ascii "Set-Cookie"
  value := ascii " sid=1"
  name_ne := by decide
  name_clean := by decide +kernel
  name_colon := by decide +kernel
  value_clean := by decide +kernel

/-- Another field, with a semicolon. -/
def noteField : Field where
  name := ascii "X-Note"
  value := ascii " a;b"
  name_ne := by decide
  name_clean := by decide +kernel
  name_colon := by decide +kernel
  value_clean := by decide +kernel

theorem staysOnLine_iff_pathCookie :
    StaysOnLine (twoFields pathCookie noteField) (ascii "sid=1; Path=/") ⟨[], [], false⟩ ↔
      ∃ start, markedLine (twoFields pathCookie noteField).lines = some start ∧
        cookieOf (ascii "sid=1; Path=/") ++ [59] <+: start.drop 12 :=
  staysOnLine_iff (twoFields pathCookie noteField) pathCookie (ascii "sid=1; Path=/")
    ⟨[], [], false⟩ List.mem_cons_self (by decide +kernel)

/-- Without an attribute the cookie goes on into the next line. -/
theorem not_staysOnLine_bareCookie :
    bareCookie ∈ (twoFields bareCookie noteField).fields ∧
      bareCookie.line = cookieMarker ++ ascii "sid=1" ∧
      ¬ StaysOnLine (twoFields bareCookie noteField) (ascii "sid=1") ⟨[], [], false⟩ ∧
      (loginCookieHandler (cString (twoFields bareCookie noteField).text)
        ⟨[], [], false⟩).2.loginCookie = ascii "sid=1\r\nX-Note: a" := by
  have hcookie : (loginCookieHandler (cString (twoFields bareCookie noteField).text)
      ⟨[], [], false⟩).2.loginCookie = ascii "sid=1\r\nX-Note: a" := by decide +kernel
  refine ⟨List.mem_cons_self, by decide +kernel, fun h => ?_, hcookie⟩
  have hline := h.oneLine
  rw [hcookie] at hline
  exact (hline 13 (by decide +kernel)).1 rfl

end TemePCom.Http
