/-
TemePCom/Http/Commands.lean

The commands (commands.h, commands.cpp) and the loop that reads them (client.h,
client.cpp).

A command is given what its system calls return, the input stream and the
session.  It returns the calls it makes, the stream, and its exit code with the
session it leaves, if it returns.
-/
import TemePCom.Http.ResponseHandlers

namespace TemePCom.Http

/-- What a command does. -/
structure Outcome where
  calls : List Call
  cin : Cin
  result : Answer

/-- A command that gives up before it sends anything. -/
def Outcome.refused (cin : Cin) (s : Session) : Outcome := ⟨[], cin, .ok (exitFailure, s)⟩

/-- An exit code with the session unchanged. -/
def unchanged (s : Session) (code : Except Stop ℤ) : Answer := code.map fun code => (code, s)

/-- The common part of the commands: `requester`, `recv_from_server` and `close`,
and then what `react` makes of the response. -/
def converse (J : Json) (w : World) (cin : Cin) (s : Session) (url : Bytes)
    (cookies : List Bytes) (flag : Flag) (auth : Bytes) (json : Form)
    (react : Bytes → Answer) : Outcome :=
  let sent := requester J w url cookies flag auth json
  match sent.2 with
  | .error stop => ⟨sent.1, cin, .error stop⟩
  | .ok sockfd =>
    if sockfd < 0 then ⟨sent.1, cin, .ok (exitFailure, s)⟩
    else
      let received := recvFromServer w sockfd
      match received.2 with
      | .error stop => ⟨sent.1 ++ received.1, cin, .error stop⟩
      | .ok memory =>
        ⟨sent.1 ++ received.1 ++ [.close sockfd], cin, react (cString memory)⟩

/-- `REGISTER_URL` and `LOGIN_URL`. -/
def authUrl (authType : Bool) : Bytes :=
  if authType = register then ascii "/api/v1/tema/auth/register"
  else ascii "/api/v1/tema/auth/login"

/-- `ENTER_LIBRARY_URL` and `LOGOUT_URL`. -/
def accessUrl : Bytes := ascii "/api/v1/tema/library/access"
def logoutUrl : Bytes := ascii "/api/v1/tema/auth/logout"

/-- `SUMMARY_INFO_URL` and `ADD_BOOK_URL`. -/
def booksUrl : Bytes := ascii "/api/v1/tema/library/books"

/-- `ID_NEEDED`, with the id. -/
def bookUrl (id : Bytes) : Bytes := ascii "/api/v1/tema/library/books/" ++ id

/-- The `auth` of the commands of the library. -/
def bearer (s : Session) : Bytes := ascii "Bearer " ++ s.jwtToken

/-- `auth_post`. -/
def authPost (J : Json) (w : World) (cin : Cin) (s : Session) (authType : Bool) : Outcome :=
  if authType = login ∧ s.isConnected then .refused cin s
  else
    let (userData, cin) := readUser cin
    converse J w cin s (authUrl authType) [] .post [] userData fun response =>
      if response.length = 0 then .ok (exitFailure, s)
      else authResponseHandler J response s authType

/-- `enter_library`. -/
def enterLibrary (J : Json) (w : World) (cin : Cin) (s : Session) : Outcome :=
  if !s.isConnected then .refused cin s
  else
    converse J w cin s accessUrl [s.loginCookie] .get [] [] fun response =>
      if response.length = 0 then .ok (exitFailure, s)
      else entranceResponseHandler J response s

/-- `get_summary_info`. -/
def getSummaryInfo (J : Json) (w : World) (cin : Cin) (s : Session) : Outcome :=
  if s.jwtToken.isEmpty then .refused cin s
  else
    converse J w cin s booksUrl [] .get (bearer s) [] fun response =>
      if response.length = 0 then .ok (exitFailure, s)
      else unchanged s (summaryHandler J response)

/-- `get_details`. -/
def getDetails (J : Json) (w : World) (cin : Cin) (s : Session) : Outcome :=
  if s.jwtToken.isEmpty then .refused cin s
  else
    let (id, cin) := cin.word
    converse J w cin s (bookUrl id) [] .get (bearer s) [] fun response =>
      unchanged s (detailsHandler J response)

/-- `add_book`. -/
def addBook (J : Json) (w : World) (cin : Cin) (s : Session) : Outcome :=
  if s.jwtToken.isEmpty then .refused cin s
  else
    let (json, cin) := readBook cin
    converse J w cin s booksUrl [] .post (bearer s) json fun response =>
      unchanged s (basicJsonHandler J response)

/-- `delete_book`. -/
def deleteBook (J : Json) (w : World) (cin : Cin) (s : Session) : Outcome :=
  if s.jwtToken.isEmpty then .refused cin s
  else
    let (id, cin) := cin.word
    converse J w cin s (bookUrl id) [] .delete (bearer s) [] fun response =>
      unchanged s (basicJsonHandler J response)

/-- What `logout` makes of the status: a success ends the session. -/
def endSession (s : Session) (status : Except Stop ℤ) : Answer :=
  match status with
  | .error stop => .error stop
  | .ok status =>
    if status = exitSuccess then .ok (status, { s with isConnected := false })
    else .ok (status, s)

/-- `logout`: the connection stays open when there is no response. -/
def logout (J : Json) (w : World) (cin : Cin) (s : Session) : Outcome :=
  if !s.isConnected then .refused cin s
  else
    let sent := requester J w logoutUrl [s.loginCookie] .get [] []
    match sent.2 with
    | .error stop => ⟨sent.1, cin, .error stop⟩
    | .ok sockfd =>
      if sockfd < 0 then ⟨sent.1, cin, .ok (exitFailure, s)⟩
      else
        let received := recvFromServer w sockfd
        match received.2 with
        | .error stop => ⟨sent.1 ++ received.1, cin, .error stop⟩
        | .ok memory =>
          let response := cString memory
          if response.length = 0 then ⟨sent.1 ++ received.1, cin, .ok (exitFailure, s)⟩
          else
            ⟨sent.1 ++ received.1 ++ [.close sockfd], cin,
              endSession s (basicJsonHandler J response)⟩

/-! ### The loop of the client -/

/-- `KILL_CLIENT`. -/
def killClient : ℤ := -2

/-- The commands that send a request. -/
inductive Command
  | register
  | login
  | enterLibrary
  | getBooks
  | getBook
  | addBook
  | deleteBook
  | logout
  deriving DecidableEq

/-- What the command's entry in the map of `command_caller` calls. -/
def Command.run (J : Json) (w : World) (cin : Cin) (s : Session) : Command → Outcome
  | .register => authPost J w cin s Http.register
  | .login => authPost J w cin s Http.login
  | .enterLibrary => Http.enterLibrary J w cin s
  | .getBooks => getSummaryInfo J w cin s
  | .getBook => getDetails J w cin s
  | .addBook => Http.addBook J w cin s
  | .deleteBook => Http.deleteBook J w cin s
  | .logout => Http.logout J w cin s

/-- The entries of the map, but for `exit`. -/
def Command.entries : List (Bytes × Command) :=
  [(ascii "register", .register), (ascii "login", .login),
    (ascii "enter_library", .enterLibrary), (ascii "get_books", .getBooks),
    (ascii "get_book", .getBook), (ascii "add_book", .addBook),
    (ascii "delete_book", .deleteBook), (ascii "logout", .logout)]

/-- `command_caller`. -/
def commandCaller (J : Json) (w : World) (cin : Cin) (s : Session) (command : Bytes) : Outcome :=
  if command = ascii "exit" then ⟨[], cin, .ok (killClient, s)⟩
  else
    match Command.entries.lookup command with
    | none => ⟨[], cin, .ok (exitFailure, s)⟩
    | some entry => entry.run J w cin s

/-- The variables of `main`. -/
structure Client where
  cin : Cin
  session : Session
  deriving DecidableEq

/-- The state `main` enters its loop with, on some input. -/
def Client.start (input : Bytes) : Client := ⟨⟨input, false⟩, ⟨[], [], false⟩⟩

/-- One turn of the loop: the command that is read, and what it does. -/
def Client.turn (J : Json) (c : Client) (w : World) : Bytes × Outcome :=
  let (command, cin) := c.cin.word
  (command, commandCaller J w cin c.session command)

/-- The state after a turn, unless the client has ended. -/
def Client.next (J : Json) (c : Client) (w : World) : Option Client :=
  let outcome := (c.turn J w).2
  match outcome.result with
  | .error _ => none
  | .ok (code, session) => if code = killClient then none else some ⟨outcome.cin, session⟩

end TemePCom.Http
