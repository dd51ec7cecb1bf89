/-
TemePCom/PubSub/Server.lean

The main loop of the server (server.cpp) as a step function.

A pass of the outer loop begins with `select` and then visits the descriptors
`1 … fdmax`; `i` is the loop's index and `tmpFds` the snapshot `select` has
left.  A step is one visit, or the `select` that begins the next pass.  What the
outside decides comes with the event: which descriptors are ready, which
descriptor `accept` returns, the datagrams, and the frames `proto_recv` returns.

A frame is written into the zeroed `buffer` of `BUFF_LEN` bytes; a longer one,
or a request longer than a `from_tcp`, overflows.  A `send` on a descriptor that
is not open ends the program.  So may one to a peer that has closed its end, by
`DIE` or by SIGPIPE; such a step is none here, and what comes of it is said where
the peers are (`System.Safe`).
-/
import TemePCom.PubSub.ServerFuns
import TemePCom.Lib.Run

namespace TemePCom.PubSub

/-- The descriptors the server starts with.  `main` creates a second TCP socket over the one of
`initialise_sockets`, which is lost. -/
structure Sockets where
  lost : ℕ
  tcp : ℕ
  udp : ℕ
  inherited : Finset ℕ
  tcp_ne_udp : tcp ≠ udp
  tcp_ne_stdin : tcp ≠ 0
  udp_ne_stdin : udp ≠ 0
  lost_ne_tcp : lost ≠ tcp
  lost_ne_udp : lost ≠ udp

/-- The variables of `main`, and the process's open descriptors. -/
structure Server where
  readFds : Finset ℕ
  tmpFds : Finset ℕ
  openFds : Finset ℕ
  fdmax : ℕ
  i : ℕ
  connected : ClientMap
  saved : ClientMap
  topics : Topics

/-- What the outside does. -/
inductive Event
  | select (ready : Finset ℕ)
  | skip
  | datagram (msg : FromUdp) (ip : UInt32) (port : UInt16) (beyond : Bytes)
  | accept (newFd : ℕ) (frame beyond : Bytes)
  | request (frame beyond : Bytes)

/-- The state `main` enters its loop with. -/
def Server.start (k : Sockets) : Server where
  readFds := {0, k.tcp, k.udp}
  tmpFds := ∅
  openFds := {0, k.tcp, k.udp} ∪ insert k.lost k.inherited
  fdmax := max k.tcp k.udp
  i := max k.tcp k.udp + 1
  connected := ∅
  saved := ∅
  topics := ∅

/-- Which event may come: a `select` after a pass, a visit within it. -/
def Server.Enabled (k : Sockets) (s : Server) : Event → Prop
  | .select ready => s.fdmax < s.i ∧ ready ⊆ s.readFds
  | .skip => s.i ≤ s.fdmax ∧ s.i ∉ s.tmpFds
  | .datagram _ _ _ _ => s.i ≤ s.fdmax ∧ s.i ∈ s.tmpFds ∧ s.i = k.udp
  | .accept newFd _ _ => s.i ≤ s.fdmax ∧ s.i ∈ s.tmpFds ∧ s.i = k.tcp ∧ newFd ∉ s.openFds
  | .request _ _ => s.i ≤ s.fdmax ∧ s.i ∈ s.tmpFds ∧ s.i ≠ k.udp ∧ s.i ≠ k.tcp

instance (k : Sockets) (s : Server) : (e : Event) → Decidable (s.Enabled k e)
  | .select ready => inferInstanceAs (Decidable (s.fdmax < s.i ∧ ready ⊆ s.readFds))
  | .skip => inferInstanceAs (Decidable (s.i ≤ s.fdmax ∧ s.i ∉ s.tmpFds))
  | .datagram _ _ _ _ =>
    inferInstanceAs (Decidable (s.i ≤ s.fdmax ∧ s.i ∈ s.tmpFds ∧ s.i = k.udp))
  | .accept newFd _ _ => inferInstanceAs
      (Decidable (s.i ≤ s.fdmax ∧ s.i ∈ s.tmpFds ∧ s.i = k.tcp ∧ newFd ∉ s.openFds))
  | .request _ _ => inferInstanceAs
      (Decidable (s.i ≤ s.fdmax ∧ s.i ∈ s.tmpFds ∧ s.i ≠ k.udp ∧ s.i ≠ k.tcp))

/-! ### The visits -/

/-- A datagram on the UDP socket.  A send on an open descriptor succeeds here; what one to a peer
that has left would do is in `System.Safe`. -/
def Server.onDatagram (s : Server) (msg : FromUdp) (ip : UInt32) (port : UInt16)
    (beyond : Bytes) : Except Fault (Server × List Transmission) :=
  let topic := msg.topicStr beyond
  match s.topics[topic]? with
  -- the first datagram on a topic only creates it
  | none => .ok ({ s with topics := newTopic s.topics topic }, [])
  | some topicMap =>
    let r := sendNewMsg topicMap ⟨msg, ip, port⟩ s.connected s.saved topic
    if ∀ t ∈ r.1, t.fd ∈ s.openFds then .ok ({ s with saved := r.2 }, r.1)
    else .error .sendFailed

/-- The id a client introduces itself with. -/
def clientId (frame beyond : Bytes) : Bytes :=
  cString (frame ++ List.replicate (buffLen - frame.length) 0 ++ beyond)

/-- A new or known client, after `already_connected` has let it pass. -/
def Server.welcome (s : Server) (newFd : ℕ) (id : Bytes) : Server × List Transmission :=
  let s := { s with
    openFds := insert newFd s.openFds
    readFds := insert newFd s.readFds
    fdmax := max s.fdmax newFd }
  match sendMissed s.saved s.connected id newFd with
  | some (saved, connected, sent) => ({ s with saved := saved, connected := connected }, sent)
  | none => ({ s with connected := s.connected.insertIfNew id (Client.new newFd id) }, [])

/-- A connection on the TCP socket. -/
def Server.onAccept (s : Server) (newFd : ℕ) (frame beyond : Bytes) :
    Except Fault (Server × List Transmission) :=
  if buffLen < frame.length then .error .overflow
  -- the descriptor stays open, and is never watched
  else if frame = [] then .ok ({ s with openFds := insert newFd s.openFds }, [])
  else
    let id := clientId frame beyond
    match alreadyConnected newFd s.connected id with
    -- told to exit, and its descriptor closed
    | some sent => .ok (s, sent)
    | none => .ok (s.welcome newFd id)

/-- The id of the connected client with the descriptor; empty if there is none. -/
def findId (connected : ClientMap) (sockfd : ℕ) : Bytes :=
  ((connected.toList.find? fun elem => elem.2.clientSocket = sockfd).map Prod.fst).getD []

/-- A frame on the descriptor of a client. -/
def Server.onRequest (s : Server) (frame beyond : Bytes) :
    Except Fault (Server × List Transmission) :=
  if 52 < frame.length then .error .overflow
  else
    let msg := FromTcp.ofBytes frame
    let id := findId s.connected s.i
    if frame = [] then
      match clientDisconnected id s.connected s.saved with
      | .error fault => .error fault
      | .ok (connected, saved) => .ok ({ s with
          connected := connected
          saved := saved
          readFds := s.readFds.erase s.i
          openFds := s.openFds.erase s.i }, [])
    else
      match msgFromClient s.i msg beyond s.topics s.connected id with
      | .error fault => .error fault
      | .ok (topics, connected, sent) =>
        .ok ({ s with topics := topics, connected := connected }, sent)

/-- `i++`. -/
def Server.next (s : Server) : Server := { s with i := s.i + 1 }

/-- One step of the main loop. -/
def Server.step (s : Server) : Event → Except Fault (Server × List Transmission)
  | .select ready => .ok ({ s with tmpFds := ready, i := 1 }, [])
  | .skip => .ok (s.next, [])
  | .datagram msg ip port beyond =>
    (s.onDatagram msg ip port beyond).map fun r => (r.1.next, r.2)
  | .accept newFd frame beyond => (s.onAccept newFd frame beyond).map fun r => (r.1.next, r.2)
  | .request frame beyond => (s.onRequest frame beyond).map fun r => (r.1.next, r.2)

/-- A step that may come and succeeds: the next state, and what is transmitted. -/
def Server.visit (k : Sockets) (s : Server) (e : Event) :
    Option (Server × List Transmission) :=
  if s.Enabled k e then (s.step e).toOption else none

theorem Server.visit_eq_some {k : Sockets} {s : Server} {e : Event}
    {r : Server × List Transmission} :
    s.visit k e = some r ↔ s.Enabled k e ∧ s.step e = .ok r := by
  unfold Server.visit
  split_ifs with hen
  · rcases s.step e with fault | r' <;> simp [hen, Except.toOption]
  · simp [hen]

/-- The server goes from `s` to `s'`. -/
def Server.Next (k : Sockets) (s : Server) (e : Event) (s' : Server) : Prop :=
  ∃ sent, s.visit k e = some (s', sent)

/-- Run the main loop on a list of events. -/
def Server.exec (k : Sockets) : Server → List Event → Option Server :=
  Runs.exec fun s e => (s.visit k e).map Prod.fst

theorem Server.run_of_exec {k : Sockets} {s t : Server} {es : List Event}
    (h : s.exec k es = some t) : Runs.Run (Server.Next k) s es t := by
  refine Runs.run_of_exec (fun s e s' hs' => ?_) h
  obtain ⟨⟨s', sent⟩, hvisit, rfl⟩ := Option.map_eq_some_iff.mp hs'
  exact ⟨sent, hvisit⟩

end TemePCom.PubSub
