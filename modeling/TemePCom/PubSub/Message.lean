/-
TemePCom/PubSub/Message.lean

What the subscriber makes of a message from the server (subscriber.cpp,
subscriber_funs.cpp): an answer of the server, or a published value, which
`identify_msg` decodes and prints.

A `cli_msg` crosses the connection as its 1560 bytes in memory.  Three of them
belong to no member: one behind the 1551 bytes of the `from_udp`, in front of the
address, and two behind the port.  The server fills in the members only, so these
bytes are whatever was there; they travel with the message.

The payload of a text has no terminator of its own: `std::string(payload)` reads on
until there is a zero.

The arithmetic on `double` is left to the outside.
-/
import TemePCom.PubSub.Subscriber

namespace TemePCom.PubSub

open Decimal LittleEndian

/-! ### Byte order -/

/-- `ntohs` and `ntohl` of a little-endian host: the bytes in the other order. -/
def ntohs (x : UInt16) : UInt16 := UInt16.ofNat (value (encode 2 x.toNat).reverse)
def ntohl (x : UInt32) : UInt32 := UInt32.ofNat (value (encode 4 x.toNat).reverse)

/-- `htons` is the same. -/
abbrev htons (x : UInt16) : UInt16 := ntohs x

/-- `*(uint16_t *) p` and `*(uint32_t *) p`. -/
def load16 (p : Bytes) : UInt16 := UInt16.ofNat (value (p.take 2))
def load32 (p : Bytes) : UInt32 := UInt32.ofNat (value (p.take 4))

/-! ### Texts -/

/-- `std::to_string` of an `int`. -/
def signedDecimal (z : ℤ) : Bytes :=
  if z < 0 then 0x2d :: numeral z.natAbs else numeral z.natAbs

/-- Four numbers with dots between them. -/
def dotted (octets : Bytes) : Bytes := [0x2e].intercalate (octets.map fun b => numeral b.toNat)

/-- `inet_ntoa`: the address lies in memory in network order. -/
def inetNtoa (ip : UInt32) : Bytes := dotted (encode 4 ip.toNat)

/-! ### A `cli_msg` in memory -/

/-- The bytes of a `cli_msg` that belong to no member. -/
structure Padding where
  inner : UInt8
  outer : UInt8 × UInt8
  deriving DecidableEq

/-- What follows the payload. -/
def CliMsg.behind (m : CliMsg) (padding : Padding) : Bytes :=
  padding.inner :: encode 4 m.ip.toNat ++ encode 2 m.port.toNat ++
    [padding.outer.1, padding.outer.2]

/-- The bytes of a `cli_msg`. -/
def CliMsg.memory (m : CliMsg) (padding : Padding) : Bytes :=
  m.recvMsg.bytes ++ m.behind padding

/-- `recvfrom` into a zeroed `from_udp`, and the same struct out of a `cli_msg`. -/
def FromUdp.ofBytes (l : Bytes) : FromUdp where
  topic := Vector.ofFn fun i => l.getD i 0
  type := l.getD 50 0
  payload := Vector.ofFn fun i => (l.drop 51).getD i 0

/-- `memcpy(&new_msg, &buffer, sizeof(cli_msg))` -/
def CliMsg.ofMemory (l : Bytes) : CliMsg × Padding :=
  (⟨FromUdp.ofBytes l, load32 (l.drop 1552), load16 (l.drop 1556)⟩,
    ⟨l.getD 1551 0, (l.getD 1558 0, l.getD 1559 0)⟩)

/-! ### `identify_msg` -/

/-- `INT_TYPE`, `SHORT_TYPE`, `FLOAT_TYPE` and `STRING_TYPE`. -/
def intType : UInt8 := 0
def shortType : UInt8 := 1
def floatType : UInt8 := 2
def stringType : UInt8 := 3

/-- The arithmetic on `double`. -/
structure Doubles where
  /-- `std::to_string(multi)` after `multi /= 100`. -/
  hundredths : UInt16 → Bytes
  /-- `std::to_string(float_val)` after `float_val /= pow(10, exponent)`, and
  `float_val *= -1` for a negative one. -/
  scaled : UInt32 → Int8 → Bool → Bytes

/-- `full_val.substr(0, full_val.find('.') + 3)`; without a dot, `npos + 3` is 2. -/
def twoDecimals (fullVal : Bytes) : Bytes :=
  match fullVal.findIdx? (· = 0x2e) with
  | some i => fullVal.take (i + 3)
  | none => fullVal.take 2

/-- `signed_val` of an `INT`. -/
def signedVal (payload : Bytes) : ℤ :=
  let intVal := ntohl (load32 (payload.drop 1))
  -- the sign is applied to an `unsigned`, the cast to `int` keeps the bits
  if payload.getD 0 0 = 1 then (intVal * (-1)).toBitVec.toInt else intVal.toBitVec.toInt

/-- The `print_type` and the `print_val`; `none` for a type that is not known. -/
def printed (doubles : Doubles) (m : CliMsg) (padding : Padding) (beyond : Bytes) :
    Option (Bytes × Bytes) :=
  let payload := m.recvMsg.payload.toList
  if m.recvMsg.type = intType then
    some (ascii ['I', 'N', 'T'], signedDecimal (signedVal payload))
  else if m.recvMsg.type = shortType then
    some (ascii ['S', 'H', 'O', 'R', 'T', '_', 'R', 'E', 'A', 'L'],
      twoDecimals (doubles.hundredths (ntohs (load16 payload))))
  else if m.recvMsg.type = floatType then
    some (ascii ['F', 'L', 'O', 'A', 'T'],
      doubles.scaled (ntohl (load32 (payload.drop 1))) (payload.getD 5 0).toInt8
        (payload.getD 0 0 = 1))
  else if m.recvMsg.type = stringType then
    some (ascii ['S', 'T', 'R', 'I', 'N', 'G'],
      cString (payload ++ m.behind padding ++ beyond))
  else none

/-- A line of output: address, port, topic, type and value. -/
def outputLine (address : Bytes) (port : ℕ) (topic printType printVal : Bytes) : Bytes :=
  address ++ 0x3a :: numeral port ++ space :: topic ++ ascii [' ', '-', ' '] ++ printType ++
    ascii [' ', '-', ' '] ++ printVal ++ [0x0a]

/-- `identify_msg`: what it prints. -/
def identifyMsg (doubles : Doubles) (m : CliMsg) (padding : Padding) (beyond : Bytes) : Bytes :=
  match printed doubles m padding beyond with
  | none => ascii "Unknown type!\n".toList
  | some (printType, printVal) =>
    outputLine (inetNtoa m.ip) (ntohs m.port).toNat
      (m.recvMsg.topicStr (m.behind padding ++ beyond)) printType printVal

/-! ### Answers of the server -/

/-- `EXIT_CODE`, `NO_TOPIC`, `SUBSCRIBED`, `UNSUBSCRIBED` and `ALREADY_SUB`. -/
def exitCode : ℤ := 0
def noTopic : ℤ := 404
def subscribedCode : ℤ := 100
def unsubscribedCode : ℤ := 101
def alreadySub : ℤ := 200

/-- `get_srv_opcode`. -/
def getSrvOpcode (opcode : Bytes) : ℤ :=
  if opcode = ascii "\\$EXIT".toList then exitCode
  else if opcode = ascii "\\$NO_TOPIC".toList then noTopic
  else if opcode = ascii "\\$SUBSCRIBED".toList then subscribedCode
  else if opcode = ascii "\\$UNSUBSCRIBED".toList then unsubscribedCode
  else if opcode = ascii "\\$ALREADY_SUB".toList then alreadySub
  else -1

/-- What the subscriber does about a message: `exit(0)`, or a text on its output. -/
inductive Reaction
  | exit
  | print (text : Bytes)
  deriving DecidableEq

/-- `opcode_received`. -/
def opcodeReceived (code : ℤ) : Reaction :=
  if code = exitCode then .exit
  else if code = noTopic then .print (ascii "No such topic.\n".toList)
  else if code = subscribedCode then .print (ascii "Subscribed to topic.\n".toList)
  else if code = unsubscribedCode then .print (ascii "Unsubscribed from topic.\n".toList)
  else if code = alreadySub then .print (ascii "Already subscribed to topic.\n".toList)
  else .print (ascii "Unknown opcode (this shouldn't be reached)\n".toList)

/-- The branch of the subscriber's loop for the server: `frame` has been received into
the cleared buffer.  The memory behind the buffer comes with it, and the memory behind
the copy of a message. -/
def onMessage (doubles : Doubles) (frame beyond beyond' : Bytes) : Reaction :=
  let buffer := frame ++ List.replicate (buffLen - frame.length) 0
  let maybeOp := cString (buffer ++ beyond)
  let code := if frame.length < sizeofCliMsg then getSrvOpcode maybeOp else -1
  if code ≠ -1 then opcodeReceived code
  else
    let newMsg := CliMsg.ofMemory buffer
    .print (identifyMsg doubles newMsg.1 newMsg.2 beyond')

end TemePCom.PubSub
