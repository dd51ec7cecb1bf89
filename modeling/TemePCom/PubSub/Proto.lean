/-
TemePCom/PubSub/Proto.lean

The protocol (proto.h, proto.cpp): the message structs, the strings read out of
them, and the transfer of length-prefixed messages over TCP.

The structs have only byte-sized members in front of the topic text, so a
`from_tcp` or a `from_udp` is its bytes in order, and a topic that fills its
field runs into the bytes behind it when it is read as a C string.

A connection is the list of bytes on their way.  `send` accepts at least one of
the bytes it is given, and `recv` delivers at least one byte as long as there
are any; how many is up to a plan.  `recv` on an exhausted stream returns 0, the
peer having closed the connection.
-/
import TemePCom.Lib.LittleEndian
import TemePCom.Lib.Loop

namespace TemePCom.PubSub

open StateTransition

/-- The contents of a `std::string`, and of a buffer. -/
abbrev Bytes : Type := List UInt8

/-- Ways in which a run of the server has no defined continuation: `map::at` on
a missing key, an access outside of a buffer, and `DIE` after a failed `send`. -/
inductive Fault
  | outOfRange
  | overflow
  | sendFailed
  deriving DecidableEq

/-- `BUFF_LEN`. -/
def buffLen : ℕ := 1600

/-- `UNSUBSCRIBE` and `SUBSCRIBE`. -/
def unsubscribeType : UInt8 := 0
def subscribeType : UInt8 := 1

/-! ### Messages -/

/-- The bytes of a C string, up to its terminator. -/
def cString (memory : Bytes) : Bytes := memory.takeWhile (· ≠ 0)

/-- `from_tcp`; `TOPIC_LEN` is 50. -/
structure FromTcp where
  type : UInt8
  topic : Vector UInt8 50
  sf : UInt8
  deriving DecidableEq

/-- `from_udp`. -/
structure FromUdp where
  topic : Vector UInt8 50
  type : UInt8
  payload : Vector UInt8 1500
  deriving DecidableEq

/-- `cli_msg`. -/
structure CliMsg where
  recvMsg : FromUdp
  ip : UInt32
  port : UInt16
  deriving DecidableEq

/-- `sizeof(from_tcp)` and `sizeof(cli_msg)`. -/
def sizeofFromTcp : ℕ := 52
def sizeofCliMsg : ℕ := 1560

def FromTcp.bytes (m : FromTcp) : Bytes := m.type :: m.topic.toList ++ [m.sf]

def FromUdp.bytes (m : FromUdp) : Bytes := m.topic.toList ++ m.type :: m.payload.toList

/-- `memcpy` into a zeroed `from_tcp`. -/
def FromTcp.ofBytes (l : Bytes) : FromTcp where
  type := l.getD 0 0
  topic := Vector.ofFn fun i => l.getD (1 + i) 0
  sf := l.getD 51 0

/-- `std::string(msg.topic)`, with the memory behind the struct. -/
def FromTcp.topicStr (m : FromTcp) (beyond : Bytes) : Bytes :=
  cString (m.topic.toList ++ m.sf :: beyond)

/-- `std::string(new_msg.topic)`, with the memory behind the struct. -/
def FromUdp.topicStr (m : FromUdp) (beyond : Bytes) : Bytes :=
  cString (m.topic.toList ++ m.type :: m.payload.toList ++ beyond)

/-! ### `proto_send` -/

/-- What one call of `send` or `recv` moves out of `n` bytes: what the plan says,
but at least one byte and at most all. -/
def moved (planned n : ℕ) : ℕ := min (max 1 planned) n

/-- How many bytes the `send`s of one `proto_send` accept. -/
structure SendPlan where
  size : ℕ
  body : ℕ → ℕ

/-- The loop of `proto_send`: what it puts on the stream, call by call. -/
def sendLoop (plan : ℕ → ℕ) (call : ℕ) (rest : Bytes) : Bytes :=
  if _h : rest = [] then []
  else
    let status := moved (plan call) rest.length
    rest.take status ++ sendLoop plan (call + 1) (rest.drop status)
termination_by rest.length
decreasing_by
  have : rest.length ≠ 0 := fun h0 => _h (List.length_eq_zero_iff.mp h0)
  simp only [List.length_drop, moved]
  omega

/-- `proto_send`: one `send` for the length, a loop for the message. -/
def protoSend (plan : SendPlan) (buffer : Bytes) : Bytes :=
  (LittleEndian.encode 8 buffer.length).take (moved plan.size 8) ++
    sendLoop plan.body 0 buffer

/-! ### `proto_recv` -/

/-- How many bytes the `recv`s of one `proto_recv` deliver. -/
structure RecvPlan where
  size : ℕ
  body : ℕ → ℕ

/-- The variables of `proto_recv`'s loop, and the stream. -/
structure RecvState where
  size : ℕ
  received : Bytes
  stream : Bytes
  call : ℕ

/-- One round of `while (bytes_recv < size)`. -/
def recvRound (plan : ℕ → ℕ) (s : RecvState) : Except Fault RecvState :=
  let status := min (moved (plan s.call) (s.size - s.received.length)) s.stream.length
  if buffLen < s.received.length + status then .error .overflow
  else .ok { s with
    received := s.received ++ s.stream.take status
    stream := s.stream.drop status
    call := s.call + 1 }

/-- The loop of `proto_recv`, as a transition function. -/
def recvStep (plan : ℕ → ℕ) : Except Fault RecvState → Option (Except Fault RecvState)
  | .error _ => none
  | .ok s => if s.received.length < s.size then some (recvRound plan s) else none

/-- `proto_recv`: the message and what is left of the stream.  The length is
read by one `recv` into a zeroed `size_t`. -/
def protoRecv (plan : RecvPlan) (stream : Bytes) : Part (Except Fault (Bytes × Bytes)) :=
  let status := min (moved plan.size 8) stream.length
  (eval (recvStep plan.body)
    (.ok ⟨LittleEndian.value (stream.take status), [], stream.drop status, 0⟩)).map
    fun r => r.map fun s => (s.received, s.stream)

end TemePCom.PubSub
