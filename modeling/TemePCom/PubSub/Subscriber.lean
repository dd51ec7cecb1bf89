/-
TemePCom/PubSub/Subscriber.lean

The subscriber's commands (subscriber_funs.cpp): a line typed by the user is cut
into words by `strtok` and becomes a `from_tcp` request.

`strtok` remembers where it stopped; here every call takes the rest of the line
and returns the new one.  A request is `none` where the command prints its usage
instead.

`recv_from_stdin` takes what one `read` has delivered for one line.
-/
import TemePCom.PubSub.Proto
import TemePCom.Lib.Decimal

namespace TemePCom.PubSub

open Decimal

def space : UInt8 := 0x20

/-- The bytes of an ASCII text. -/
def ascii (text : List Char) : Bytes := text.map fun c => UInt8.ofNat c.toNat

/-- `strtok(…, " ")`: the next word, and what follows its delimiter. -/
def strtok (rest : Bytes) : Option (Bytes × Bytes) :=
  let s := rest.dropWhile (· = space)
  if s = [] then none
  else some (s.takeWhile (· ≠ space), (s.dropWhile (· ≠ space)).drop 1)

/-- `strndup(topic, 50)` on a topic that is too long. -/
def truncated (topic : Bytes) : Bytes :=
  if topic.length > 50 then topic.take 50 else topic

/-- `memcpy(new_msg.topic, topic, strlen(topic))` into a zeroed struct. -/
def topicField (topic : Bytes) : Vector UInt8 50 := Vector.ofFn fun i => topic.getD i 0

/-- `send_subscription`: the message handed to `proto_send`. -/
def sendSubscription (buffer : Bytes) : Option FromTcp := do
  let rest := ((strtok buffer).map Prod.snd).getD []
  let (topic, rest) ← strtok rest
  let topic := truncated topic
  let (sf, rest) ← strtok rest
  -- a word too many
  match strtok rest with
  | some _ => none
  | none =>
    let sfBooled := strtol sf = 1
    some ⟨subscribeType, topicField topic, if sfBooled then 1 else 0⟩

/-- `remove_subscription`: the message handed to `proto_send`. -/
def removeSubscription (buffer : Bytes) : Option FromTcp := do
  let rest := ((strtok buffer).map Prod.snd).getD []
  let (topic, rest) ← strtok rest
  match strtok rest with
  | some _ => none
  | none => some ⟨unsubscribeType, topicField (truncated topic), 0⟩

/-! ### `recv_from_stdin` -/

def newline : UInt8 := 0x0a

def exitWord : Bytes := ascii ['e', 'x', 'i', 't']
def subscribeWord : Bytes := ascii ['s', 'u', 'b', 's', 'c', 'r', 'i', 'b', 'e']
def unsubscribeWord : Bytes := ascii ['u', 'n', 's', 'u', 'b', 's', 'c', 'r', 'i', 'b', 'e']

/-- The messages `recv_from_stdin` hands to `proto_send` for a line. -/
def commandSent (buffer : Bytes) : List FromTcp :=
  if subscribeWord <+: buffer then (sendSubscription buffer).toList
  else if unsubscribeWord <+: buffer then (removeSubscription buffer).toList
  else []

/-- `recv_from_stdin`, where `read` has delivered `input` into the cleared buffer: what it
returns, and what it sends. -/
def recvFromStdin (input beyond : Bytes) : Except Fault (Bool × List FromTcp) :=
  let buffer := cString (input ++ List.replicate (buffLen - input.length) 0 ++ beyond)
  -- `buffer[strlen(buffer) - 1]` lies in front of an empty string
  if buffer = [] then .error .overflow
  else
    let buffer := if buffer.getLast? = some newline then buffer.dropLast else buffer
    if exitWord <+: buffer then .ok (true, [])
    else .ok (false, commandSent buffer)

/-- What the subscriber sends for the inputs of successive `read`s, `read` by `read`.  It
makes no `read` after an `exit`. -/
def stdinLoop (beyond : Bytes) : List Bytes → Except Fault (List (List FromTcp))
  | [] => .ok []
  | input :: inputs =>
    match recvFromStdin input beyond with
    | .error fault => .error fault
    | .ok (true, sent) => .ok (sent :: inputs.map fun _ => [])
    | .ok (false, sent) => (stdinLoop beyond inputs).map fun later => sent :: later

end TemePCom.PubSub
