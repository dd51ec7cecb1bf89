/-
TemePCom/PubSub/ServerFuns.lean

The clients (Client.h, Client.cpp) and what the server does with them
(server_funs.cpp).

A `std::map` is an ordered map; `map::insert` is `insertIfNew` and leaves a
present key alone, `map::at` on a missing key is the fault `outOfRange`.  The
functions that transmit return what they hand to `proto_send`, with the
descriptor, in order.  Subscribing puts a *copy* of the client's record into the
topic's map.
-/
import TemePCom.Lib.OrdMap
import TemePCom.PubSub.Proto

namespace TemePCom.PubSub

open Std (ExtTreeMap)

/-! ### Clients -/

/-- `Client`. -/
structure Client where
  clientSocket : ℕ
  id : Bytes
  sf : List Bytes
  missed : List CliMsg
  deriving DecidableEq

/-- `Client(clientSocket, id)`. -/
def Client.new (clientSocket : ℕ) (id : Bytes) : Client := ⟨clientSocket, id, [], []⟩

def Client.setClientSocket (c : Client) (clientSocket : ℕ) : Client :=
  { c with clientSocket := clientSocket }

def Client.addSf (c : Client) (topic : Bytes) : Client := { c with sf := c.sf ++ [topic] }

def Client.addMissed (c : Client) (msg : CliMsg) : Client :=
  { c with missed := c.missed ++ [msg] }

def Client.popMissed (c : Client) : Client := { c with missed := c.missed.tail }

/-- `ClientMap`. -/
abbrev ClientMap : Type := ExtTreeMap Bytes Client compare

/-- `std::map<std::string, ClientMap>`. -/
abbrev Topics : Type := ExtTreeMap Bytes ClientMap compare

/-! ### Transmissions -/

/-- The answers of the server to its clients. -/
inductive Opcode
  | exit
  | noTopic
  | subscribed
  | unsubscribed
  | alreadySub
  deriving DecidableEq

/-- The text that is sent. -/
def Opcode.text : Opcode → String
  | .exit => "\\$EXIT"
  | .noTopic => "\\$NO_TOPIC"
  | .subscribed => "\\$SUBSCRIBED"
  | .unsubscribed => "\\$UNSUBSCRIBED"
  | .alreadySub => "\\$ALREADY_SUB"

/-- What one `proto_send` is given. -/
inductive Content
  | opcode (code : Opcode)
  | msg (m : CliMsg)
  deriving DecidableEq

/-- One `proto_send`. -/
structure Transmission where
  fd : ℕ
  content : Content
  deriving DecidableEq

/-! ### Datagrams -/

/-- `new_topic`. -/
def newTopic (topics : Topics) (topic : Bytes) : Topics := topics.insertIfNew topic ∅

/-- The loop of `send_new_msg` over the entries of the topic's map. -/
def sendNewMsgLoop (forClient : CliMsg) (connected : ClientMap) (topic : Bytes) :
    List (Bytes × Client) → ClientMap → List Transmission × ClientMap
  | [], saved => ([], saved)
  | (_, crt) :: rest, saved =>
    if crt.id ∈ connected then
      -- on the descriptor of the copy
      let r := sendNewMsgLoop forClient connected topic rest saved
      (⟨crt.clientSocket, .msg forClient⟩ :: r.1, r.2)
    else match saved[crt.id]? with
      | none => sendNewMsgLoop forClient connected topic rest saved
      | some client =>
        if topic ∈ client.sf then
          sendNewMsgLoop forClient connected topic rest
            (saved.modify crt.id (·.addMissed forClient))
        else sendNewMsgLoop forClient connected topic rest saved

/-- `send_new_msg`: what it transmits, and the saved clients. -/
def sendNewMsg (topicMap : ClientMap) (forClient : CliMsg) (connected saved : ClientMap)
    (topic : Bytes) : List Transmission × ClientMap :=
  sendNewMsgLoop forClient connected topic topicMap.toList saved

/-- What happens to the record of a saved client that is subscribed. -/
def Client.stored (forClient : CliMsg) (topic : Bytes) (c : Client) : Client :=
  if topic ∈ c.sf then c.addMissed forClient else c

/-! ### Connections -/

/-- `already_connected`: what it transmits before it closes the descriptor. -/
def alreadyConnected (newFd : ℕ) (clients : ClientMap) (id : Bytes) :
    Option (List Transmission) :=
  if id ∈ clients then some [⟨newFd, .opcode .exit⟩] else none

/-- `while (!getMissed().empty())` of `send_missed`: what it transmits, and the
client afterwards. -/
def drainMissed (newFd : ℕ) (client : Client) : List Transmission × Client :=
  match _h : client.missed with
  | [] => ([], client)
  | msg :: _ =>
    let r := drainMissed newFd client.popMissed
    (⟨newFd, .msg msg⟩ :: r.1, r.2)
termination_by client.missed.length
decreasing_by simp [Client.popMissed, _h]

/-- `send_missed`: `none` is its `-1`; otherwise the saved and the connected
clients, and what it transmits. -/
def sendMissed (saved connected : ClientMap) (id : Bytes) (newFd : ℕ) :
    Option (ClientMap × ClientMap × List Transmission) :=
  match saved[id]? with
  | none => none
  | some client =>
    let r := drainMissed newFd client
    some (saved.erase id, connected.insertIfNew id (r.2.setClientSocket newFd), r.1)

/-- The queue is transmitted in order and emptied. -/
theorem drainMissed_eq (newFd : ℕ) (client : Client) : drainMissed newFd client =
    (client.missed.map fun msg => ⟨newFd, .msg msg⟩, { client with missed := [] }) := by
  fun_induction drainMissed newFd client with
  | case1 client h =>
    obtain ⟨socket, id, sf, missed⟩ := client
    simp only at h
    rw [h]
    rfl
  | case2 client msg rest h r ih =>
    have hpop : client.popMissed.missed = rest := by simp [Client.popMissed, h]
    simp only [r, ih, hpop, h, List.map_cons]
    rfl

/-- `client_disconnected`: the connected and the saved clients. -/
def clientDisconnected (id : Bytes) (connected saved : ClientMap) :
    Except Fault (ClientMap × ClientMap) :=
  match connected[id]? with
  | none => .error .outOfRange
  | some client =>
    .ok (connected.erase id, if client.sf = [] then saved else saved.insertIfNew id client)

/-! ### Requests -/

/-- `unsubscribe`; `topic` is the string the server reads from the request. -/
def unsubscribe (sockfd : ℕ) (topic : Bytes) (topics : Topics) (id : Bytes) :
    Topics × List Transmission :=
  if topic ∈ topics then
    (topics.modify topic (·.erase id), [⟨sockfd, .opcode .unsubscribed⟩])
  else (topics, [⟨sockfd, .opcode .noTopic⟩])

/-- `subscribe`. -/
def subscribe (sockfd : ℕ) (topic : Bytes) (sf : Bool) (topics : Topics)
    (connected : ClientMap) (id : Bytes) :
    Except Fault (Topics × ClientMap × List Transmission) :=
  let topics := if topic ∈ topics then topics else newTopic topics topic
  match topics[topic]? with
  | none => .error .outOfRange
  | some topicMap =>
    if id ∈ topicMap then .ok (topics, connected, [⟨sockfd, .opcode .alreadySub⟩])
    else match connected[id]? with
      | none => .error .outOfRange
      | some client =>
        -- the record is copied before the SF list grows
        .ok (topics.modify topic (·.insertIfNew id client),
          if sf then connected.modify id (·.addSf topic) else connected,
          [⟨sockfd, .opcode .subscribed⟩])

/-- `msg_from_client`. -/
def msgFromClient (sockfd : ℕ) (msg : FromTcp) (beyond : Bytes) (topics : Topics)
    (connected : ClientMap) (id : Bytes) :
    Except Fault (Topics × ClientMap × List Transmission) :=
  if msg.type = unsubscribeType then
    let r := unsubscribe sockfd (msg.topicStr beyond) topics id
    .ok (r.1, connected, r.2)
  else if msg.type = subscribeType then
    subscribe sockfd (msg.topicStr beyond) (msg.sf ≠ 0) topics connected id
  else .ok (topics, connected, [])

end TemePCom.PubSub
