/-
TemePCom/Http/Credentials.lean

Whose credentials a request carries, as the server sees it.

The server keeps a log of what it has been asked and what it has answered.  It grants a
cookie by the answer to a login that is no JSON text, and a token by the answer to an
entry.  In every run, however the connections cut the bytes, the cookie and the token of
a request are the last ones that were granted (`credentials_granted`): nothing that is
typed, and no other answer, gets into them.
-/
import TemePCom.Http.Dialogue

namespace TemePCom.Http

open Runs

variable {J : Json} {R : Remote J}

/-! ### What is granted -/

/-- The cookie that an answer grants. -/
def Exchange.cookie (J : Json) (ex : Exchange) : Option Bytes :=
  if ex.request.target = authUrl login then
    match ex.response.json J with
    | .error .parseError => ex.response.cookie
    | _ => none
  else none

/-- The token that an answer grants. -/
def Exchange.token (J : Json) (ex : Exchange) : Option Bytes :=
  if ex.request.target = accessUrl then
    match ex.response.json J with
    | .ok json => if J.contains json (ascii "token") then J.string json (ascii "token") else none
    | _ => none
  else none

/-- The last one that was granted. -/
def lastGranted (grant : Exchange → Option Bytes) (log : List Exchange) : Option Bytes :=
  (log.filterMap grant).getLast?

/-- The credentials of a request are those that were granted last, the cookie with the semicolon
behind it and the token without trailing spaces, and only the requests that need them have any. -/
structure Presents (J : Json) (log : List Exchange) (d : Decoded) : Prop where
  cookie : d.target = accessUrl ∨ d.target = logoutUrl →
    ∃ cookie, lastGranted (Exchange.cookie J) log = some cookie ∧ d.cookies = [cookie ++ [59]]
  noCookie : ¬ (d.target = accessUrl ∨ d.target = logoutUrl) → d.cookies = []
  token : booksUrl <+: d.target →
    ∃ token, lastGranted (Exchange.token J) log = some token ∧ token ≠ [] ∧
      d.authorization = some (trimEnd (ascii "Bearer " ++ token))
  noToken : ¬ booksUrl <+: d.target → d.authorization = none

theorem lastGranted_append (grant : Exchange → Option Bytes) (log : List Exchange)
    (ex : Exchange) : lastGranted grant (log ++ [ex]) = (grant ex).or (lastGranted grant log) := by
  rw [lastGranted, List.filterMap_append]
  cases hgrant : grant ex with
  | none =>
    rw [List.filterMap_cons_none hgrant, List.filterMap_nil, List.append_nil]
    rfl
  | some value =>
    rw [List.filterMap_cons_some hgrant, List.filterMap_nil, List.getLast?_concat]
    rfl

/-! ### Who asks for what -/

section Targets

variable {cin cin' : Cin} {s s' : Session} {c : Command} {d : Decoded}

/-- What the requests are about. -/
inductive Endpoint
  | register
  | login
  | access
  | books
  | logout
  deriving DecidableEq

instance : Fintype Endpoint where
  elems := {.register, .login, .access, .books, .logout}
  complete e := by cases e <;> decide

def Endpoint.url : Endpoint → Bytes
  | .register => authUrl Http.register
  | .login => authUrl Http.login
  | .access => accessUrl
  | .books => booksUrl
  | .logout => logoutUrl

/-- No URL of the five goes on from another. -/
theorem Endpoint.eq_of_url_prefix : ∀ a b : Endpoint, a.url <+: b.url → a = b := by
  decide +kernel

def Command.endpoint : Command → Endpoint
  | .register => .register
  | .login => .login
  | .enterLibrary => .access
  | .getBooks | .getBook | .addBook | .deleteBook => .books
  | .logout => .logout

/-- The URL of a book. -/
theorem bookUrl_target (id : Bytes) : ∃ rest, cString (bookUrl id) = booksUrl ++ rest := by
  have hurl : ascii "/api/v1/tema/library/books/" = booksUrl ++ [47] := by decide +kernel
  have hvisible : ∀ c ∈ booksUrl ++ [47], decide (c ≠ 0) = true := by decide +kernel
  refine ⟨47 :: cString id, ?_⟩
  rw [cString, bookUrl, hurl, List.takeWhile_append_of_pos hvisible, List.append_assoc]
  rfl

/-- The target that a command asks for: behind that of the books there can be an id. -/
def Command.Targets (target : Bytes) (c : Command) : Prop :=
  c.endpoint.url <+: target ∧ (c.endpoint ≠ .books → target = c.endpoint.url)

theorem Command.targets_url : c.Targets c.endpoint.url := ⟨List.prefix_rfl, fun _ => rfl⟩

theorem Command.asks_targets (h : c.asks J cin s = (some d, cin')) : c.Targets d.target := by
  cases c with
  | register | login | addBook =>
    obtain ⟨json, -, rfl⟩ := Option.map_eq_some_iff.mp (congrArg Prod.fst h)
    exact Command.targets_url
  | enterLibrary | logout | getBooks =>
    obtain rfl := Option.some.inj (congrArg Prod.fst h)
    exact Command.targets_url
  | getBook | deleteBook =>
    obtain rfl := Option.some.inj (congrArg Prod.fst h)
    obtain ⟨rest, hrest⟩ := bookUrl_target cin.word.1
    exact ⟨⟨rest, hrest.symm⟩, fun hne => absurd rfl hne⟩

/-- The credentials that a command asks with. -/
theorem Command.asks_credentials (h : c.asks J cin s = (some d, cin')) :
    ((c = .enterLibrary ∨ c = .logout) ∧ d.cookies = s.cookies ∨
      ¬ (c = .enterLibrary ∨ c = .logout) ∧ d.cookies = []) ∧
    (c.OfLibrary ∧ d.authorization = s.authorization ∨
      ¬ c.OfLibrary ∧ d.authorization = none) := by
  cases c with
  | register | login | addBook =>
    obtain ⟨json, -, rfl⟩ := Option.map_eq_some_iff.mp (congrArg Prod.fst h)
    simp [Command.OfLibrary, asked]
  | enterLibrary | logout | getBooks | getBook | deleteBook =>
    obtain rfl := Option.some.inj (congrArg Prod.fst h)
    simp [Command.OfLibrary, asked]

/-- A target tells what is asked for. -/
theorem Command.Targets.prefix_iff {target : Bytes} (h : c.Targets target) (e : Endpoint) :
    e.url <+: target ↔ c.endpoint = e := by
  refine ⟨fun he => ?_, fun he => he ▸ h.1⟩
  rcases List.prefix_or_prefix_of_prefix h.1 he with hle | hle
  · exact Endpoint.eq_of_url_prefix _ _ hle
  · exact (Endpoint.eq_of_url_prefix _ _ hle).symm

theorem Command.Targets.eq_iff {target : Bytes} (h : c.Targets target) {e : Endpoint}
    (he : e ≠ .books) : target = e.url ↔ c.endpoint = e := by
  refine ⟨fun heq => (h.prefix_iff e).mp (heq ▸ List.prefix_rfl), ?_⟩
  rintro rfl
  exact h.2 he

theorem Command.Targets.login_iff {target : Bytes} (h : c.Targets target) :
    target = authUrl Http.login ↔ c = .login :=
  (h.eq_iff (e := .login) nofun).trans (by cases c <;> simp [Command.endpoint])

theorem Command.Targets.access_iff {target : Bytes} (h : c.Targets target) :
    target = accessUrl ↔ c = .enterLibrary :=
  (h.eq_iff (e := .access) nofun).trans (by cases c <;> simp [Command.endpoint])

theorem Command.Targets.logout_iff {target : Bytes} (h : c.Targets target) :
    target = logoutUrl ↔ c = .logout :=
  (h.eq_iff (e := .logout) nofun).trans (by cases c <;> simp [Command.endpoint])

theorem Command.Targets.books_iff {target : Bytes} (h : c.Targets target) :
    booksUrl <+: target ↔ c.OfLibrary :=
  (h.prefix_iff .books).trans (by cases c <;> simp [Command.endpoint, Command.OfLibrary])

end Targets

/-! ### One exchange -/

section Step

variable {log : List Exchange} {s s' : Session} {c : Command} {ex : Exchange}

/-- What the session stores is what was granted last. -/
structure Granted (J : Json) (log : List Exchange) (s : Session) : Prop where
  cookie : s.isConnected → lastGranted (Exchange.cookie J) log = some s.loginCookie
  token : s.jwtToken ≠ [] → lastGranted (Exchange.token J) log = some s.jwtToken

/-- Without a login or an entry nothing is granted. -/
theorem cookie_eq_none (htarget : c.Targets ex.request.target) (hc : c ≠ .login) :
    ex.cookie J = none := if_neg fun heq => hc (htarget.login_iff.mp heq)

theorem token_eq_none (htarget : c.Targets ex.request.target) (hc : c ≠ .enterLibrary) :
    ex.token J = none := if_neg fun heq => hc (htarget.access_iff.mp heq)

/-- What is not learnt has not been granted. -/
theorem granted_none_of_same (htarget : c.Targets ex.request.target)
    (hcookie : c = .login → ex.response.json J = .error .parseError → ex.response.cookie = none)
    (htoken : c = .enterLibrary →
      ∀ json, ex.response.json J = .ok json → J.contains json (ascii "token") = false) :
    ex.cookie J = none ∧ ex.token J = none := by
  constructor
  · by_cases hc : c = .login
    · rw [Exchange.cookie, if_pos (htarget.login_iff.mpr hc)]
      split
      · next hjson => exact hcookie hc hjson
      · rfl
    · exact cookie_eq_none htarget hc
  · by_cases hc : c = .enterLibrary
    · rw [Exchange.token, if_pos (htarget.access_iff.mpr hc)]
      split
      · next json hjson => rw [htoken hc json hjson, if_neg Bool.false_ne_true]
      · rfl
    · exact token_eq_none htarget hc

/-- **An exchange** leaves in the session what has been granted last. -/
theorem Granted.learns (h : Granted J log s) (htarget : c.Targets ex.request.target)
    (hlearns : c.learns J ex.response.toResponse s = some s') : Granted J (log ++ [ex]) s' := by
  cases Command.learns_cases hlearns with
  | same hcookie htoken =>
    obtain ⟨hnoCookie, hnoToken⟩ := granted_none_of_same htarget hcookie htoken
    refine ⟨?_, ?_⟩
    · rw [lastGranted_append, hnoCookie]
      exact h.cookie
    · rw [lastGranted_append, hnoToken]
      exact h.token
  | @connected cookie hjson hcookie =>
    have hgrant : ex.cookie J = some cookie := by
      rw [Exchange.cookie, if_pos (htarget.login_iff.mpr rfl), hjson]
      exact hcookie
    refine ⟨fun _ => ?_, ?_⟩
    · rw [lastGranted_append, hgrant]
      rfl
    · rw [lastGranted_append, token_eq_none htarget (by decide)]
      exact h.token
  | @entered json token hjson hkey htoken =>
    have hgrant : ex.token J = some token := by
      rw [Exchange.token, if_pos (htarget.access_iff.mpr rfl), hjson]
      show (if J.contains json (ascii "token") then _ else _) = _
      rw [if_pos hkey, htoken]
    refine ⟨?_, fun _ => ?_⟩
    · rw [lastGranted_append, cookie_eq_none htarget (by decide)]
      exact h.cookie
    · rw [lastGranted_append, hgrant]
      rfl
  | left =>
    have htoken : lastGranted (Exchange.token J) (log ++ [ex]) =
        lastGranted (Exchange.token J) log := by
      rw [lastGranted_append, token_eq_none htarget (by decide)]
      rfl
    exact
      { cookie := fun hc => nomatch hc
        token := fun hne => htoken.trans (h.token hne) }

/-- **A request presents** what was granted last. -/
theorem Granted.presents {cin cin' : Cin} {d : Decoded} (h : Granted J log s)
    (hguard : c.Allowed s) (hasks : c.asks J cin s = (some d, cin')) : Presents J log d := by
  have htarget := Command.asks_targets hasks
  have hsession : d.target = accessUrl ∨ d.target = logoutUrl ↔
      c = .enterLibrary ∨ c = .logout := or_congr htarget.access_iff htarget.logout_iff
  obtain ⟨hcookies, hauth⟩ := Command.asks_credentials hasks
  constructor
  · intro hd
    obtain ⟨-, hcookies⟩ := hcookies.resolve_right fun hno => hno.1 (hsession.mp hd)
    have hconnected : s.isConnected := by
      rcases hsession.mp hd with rfl | rfl <;> exact hguard
    exact ⟨s.loginCookie, h.cookie hconnected, hcookies⟩
  · intro hd
    exact (hcookies.resolve_left fun hyes => hd (hsession.mpr hyes.1)).2
  · intro hd
    obtain ⟨hlibrary, hauth⟩ := hauth.resolve_right fun hno => hno.1 (htarget.books_iff.mp hd)
    have hentered : s.jwtToken ≠ [] := by
      rcases hlibrary with rfl | rfl | rfl | rfl <;> exact hguard
    exact ⟨s.jwtToken, h.token hentered, hentered, hauth⟩
  · intro hd
    exact (hauth.resolve_left fun hyes => hd (htarget.books_iff.mpr hyes.1)).2

end Step

/-! ### Every run -/

/-- A turn keeps the session and the log in step. -/
theorem Granted.next {log : List Exchange} {y y' : Joint R} {e : Link × Option Exchange}
    (hJ : J.DumpsText) (hs : y.client.session.Tidy) (h : Granted J log y.client.session)
    (hnext : Joint.Next R y e y') : y'.client.session.Tidy ∧
      Granted J (log ++ e.2.toList) y'.client.session ∧
      ∀ ex, e.2 = some ex → Presents J log ex.request := by
  have hspeaks := ((Joint.next_iff hJ hs).mp hnext).1
  refine ⟨hspeaks.tidy hs, ?_⟩
  generalize hlabel : e.2 = label at hspeaks
  cases hspeaks with
  | idle | refused =>
    rw [Option.toList_none, List.append_nil]
    exact ⟨h, fun ex hex => nomatch hex⟩
  | exchange hcommand hguard hasks hanswer hlearns =>
    have htarget := Command.asks_targets hasks
    refine ⟨h.learns htarget hlearns, fun ex hex => ?_⟩
    rw [← Option.some.inj hex]
    exact h.presents hguard hasks

end TemePCom.Http
