/-
TemePCom/PubSub/TopicKey.lean

The key of a topic in the server's maps, from the three messages that name it.

A topic of 50 bytes fills its field and leaves no room for a terminator.  The
key the server reads then goes on with the byte behind the field: the SF flag in
a subscription, the payload type in a datagram.  Only where that byte happens to
be zero, as it is in every cancellation, is the key the topic.
-/
import TemePCom.PubSub.Subscriber

namespace TemePCom.PubSub

open Decimal

/-- A word of a command line. -/
structure Word where
  text : Bytes
  ne_nil : text ≠ []
  no_space : space ∉ text
  no_nul : 0 ∉ text

/-- `subscribe TOPIC SF` -/
def subscribeLine (topic sf : Word) : Bytes :=
  ascii ['s', 'u', 'b', 's', 'c', 'r', 'i', 'b', 'e'] ++ space :: (topic.text ++ space :: sf.text)

/-- `unsubscribe TOPIC` -/
def unsubscribeLine (topic : Word) : Bytes :=
  ascii ['u', 'n', 's', 'u', 'b', 's', 'c', 'r', 'i', 'b', 'e'] ++ space :: topic.text

/-- A datagram published on a topic. -/
def published (topic : Bytes) (type : UInt8) (payload : Vector UInt8 1500) : FromUdp :=
  ⟨topicField topic, type, payload⟩

/-- The key the server reads from the bytes of a request. -/
def requestKey (m : FromTcp) (beyond : Bytes) : Bytes :=
  (FromTcp.ofBytes m.bytes).topicStr beyond

/-! ### Words -/

section Strtok

variable {w rest : Bytes}

theorem strtok_append (hne : w ≠ []) (hspace : space ∉ w) :
    strtok (w ++ space :: rest) = some (w, rest) := by
  have hall : ∀ b ∈ w, decide (b ≠ space) = true := fun b hb =>
    decide_eq_true fun h => hspace (h ▸ hb)
  obtain ⟨b, w, rfl⟩ := List.exists_cons_of_ne_nil hne
  have hb : b ≠ space := fun h => hspace (h ▸ List.mem_cons_self)
  have hdrop : (b :: w ++ space :: rest).dropWhile (· = space) = b :: w ++ space :: rest := by
    simp [hb]
  rw [strtok, hdrop, List.takeWhile_append_of_pos hall, List.dropWhile_append_of_pos hall]
  simp

theorem strtok_self (hne : w ≠ []) (hspace : space ∉ w) : strtok w = some (w, []) := by
  have hall : ∀ b ∈ w, decide (b ≠ space) = true := fun b hb =>
    decide_eq_true fun h => hspace (h ▸ hb)
  obtain ⟨b, w, rfl⟩ := List.exists_cons_of_ne_nil hne
  have hb : b ≠ space := fun h => hspace (h ▸ List.mem_cons_self)
  have hdrop : (b :: w).dropWhile (· = space) = b :: w := by simp [hb]
  have htake : (b :: w).takeWhile (· ≠ space) = b :: w := List.takeWhile_eq_self_iff.mpr hall
  have hrest : (b :: w).dropWhile (· ≠ space) = [] := List.dropWhile_eq_nil_iff.mpr hall
  rw [strtok, hdrop, htake, hrest]
  simp

end Strtok

/-- The subscriber's request for a `subscribe` line. -/
theorem sendSubscription_line (topic sf : Word) :
    sendSubscription (subscribeLine topic sf) =
      some ⟨subscribeType, topicField (truncated topic.text),
        if strtol sf.text = 1 then 1 else 0⟩ := by
  have hcmd : strtok (subscribeLine topic sf) = some (_, topic.text ++ space :: sf.text) :=
    strtok_append (by decide) (by decide)
  have hnil : strtok [] = none := rfl
  simp only [sendSubscription, hcmd, Option.map_some, Option.getD_some,
    strtok_append topic.ne_nil topic.no_space, strtok_self sf.ne_nil sf.no_space, hnil,
    Option.bind_eq_bind, Option.bind_some]

/-- The subscriber's request for an `unsubscribe` line. -/
theorem removeSubscription_line (topic : Word) :
    removeSubscription (unsubscribeLine topic) =
      some ⟨unsubscribeType, topicField (truncated topic.text), 0⟩ := by
  have hcmd : strtok (unsubscribeLine topic) = some (_, topic.text) :=
    strtok_append (by decide) (by decide)
  have hnil : strtok [] = none := rfl
  simp only [removeSubscription, hcmd, Option.map_some, Option.getD_some,
    strtok_self topic.ne_nil topic.no_space, hnil, Option.bind_eq_bind, Option.bind_some]

/-! ### Fields -/

/-- A request arrives as it was sent. -/
theorem ofBytes_bytes (m : FromTcp) : FromTcp.ofBytes m.bytes = m := by
  obtain ⟨type, topic, sf⟩ := m
  have htopic : ∀ i (hi : i < 50), (type :: topic.toList ++ [sf]).getD (1 + i) 0 = topic[i] := by
    intro i hi
    rw [Nat.add_comm, List.cons_append, List.getD_cons_succ, List.getD_append _ _ _ _ (by simpa)]
    simp [hi]
  simp only [FromTcp.ofBytes, FromTcp.bytes, FromTcp.mk.injEq]
  refine ⟨rfl, ?_, ?_⟩
  · apply Vector.ext
    intro i hi
    rw [Vector.getElem_ofFn]
    exact htopic i hi
  · rw [List.cons_append, List.getD_cons_succ, List.getD_append_right _ _ _ _ (by simp)]
    simp

theorem toList_ofFn_getD {n : ℕ} {l : Bytes} (h : l.length ≤ n) :
    (Vector.ofFn fun i : Fin n => l.getD i 0).toList = l ++ List.replicate (n - l.length) 0 := by
  rw [Vector.toList_ofFn]
  apply List.ext_getElem
  · simp
    omega
  · intro i h₁ h₂
    rw [List.getElem_ofFn]
    by_cases hi : i < l.length
    · rw [List.getElem_append_left hi, List.getD_eq_getElem _ _ hi]
    · rw [List.getElem_append_right (by omega), List.getElem_replicate,
        List.getD_eq_default _ _ (by simpa using hi)]

theorem cString_append {text : Bytes} (h : 0 ∉ text) (memory : Bytes) :
    cString (text ++ memory) = text ++ cString memory :=
  List.takeWhile_append_of_pos fun _ hb => decide_eq_true fun h0 => h (h0 ▸ hb)

/-- The key read from a field that holds `topic`, with `next` behind the field:
the topic, unless it fills the field and `next` is not a terminator. -/
theorem cString_topicField {topic : Bytes} (hle : topic.length ≤ 50) (hnul : 0 ∉ topic)
    (next : UInt8) (beyond : Bytes) :
    cString ((topicField topic).toList ++ next :: beyond) = topic ↔
      topic.length < 50 ∨ next = 0 := by
  rw [topicField, toList_ofFn_getD hle, List.append_assoc, cString_append hnul]
  rcases Nat.lt_or_eq_of_le hle with hlt | heq
  · -- padding behind the topic ends it
    obtain ⟨d, hd⟩ : ∃ d, 50 - topic.length = d + 1 := ⟨49 - topic.length, by omega⟩
    rw [hd, List.replicate_succ]
    simp [cString, hlt]
  · -- no padding: the next byte decides
    rw [heq, Nat.sub_self, List.replicate_zero, List.nil_append]
    by_cases hnext : next = 0 <;> simp [cString, hnext]

theorem truncated_eq_take (topic : Bytes) : truncated topic = topic.take 50 := by
  unfold truncated
  split_ifs with h
  · rfl
  · rw [List.take_of_length_le (by omega)]

/-! ### The keys -/

/-- **When the keys agree**: the subscription, its cancellation and every
datagram on a topic meet in the topic's entry iff the truncated topic leaves
room for a terminator, or both bytes read in its place are zero. -/
theorem topicKeys_iff (topic sf : Word) (type : UInt8) (payload : Vector UInt8 1500)
    (beyond beyond' beyond'' : Bytes) :
    ((sendSubscription (subscribeLine topic sf)).map (requestKey · beyond) =
        some (topic.text.take 50) ∧
      (removeSubscription (unsubscribeLine topic)).map (requestKey · beyond') =
        some (topic.text.take 50) ∧
      (published (topic.text.take 50) type payload).topicStr beyond'' =
        topic.text.take 50) ↔
      (topic.text.take 50).length < 50 ∨ (strtol sf.text ≠ 1 ∧ type = 0) := by
  have hle : (topic.text.take 50).length ≤ 50 := by simp
  have hnul : 0 ∉ topic.text.take 50 := fun h => topic.no_nul (List.mem_of_mem_take h)
  rw [sendSubscription_line, removeSubscription_line, truncated_eq_take]
  simp only [Option.map_some, Option.some.injEq, requestKey, ofBytes_bytes, FromTcp.topicStr,
    FromUdp.topicStr, published, List.append_assoc, List.cons_append,
    cString_topicField hle hnul, or_true, true_and]
  by_cases hsf : strtol sf.text = 1
  · simp [hsf]
    exact Or.inl
  · simp [hsf]

/-- A topic of 50 bytes. -/
def fullTopic : Word where
  text := List.replicate 50 0x61
  ne_nil := by decide
  no_space := by decide
  no_nul := by decide

/-- The word `1`. -/
def one : Word where
  text := [0x31]
  ne_nil := by decide
  no_space := by decide
  no_nul := by decide

/-- Subscribed with SF, a topic of 50 bytes gets another key. -/
theorem not_topicKey_fullTopic :
    (sendSubscription (subscribeLine fullTopic one)).map (requestKey · []) ≠
      some (fullTopic.text.take 50) := by
  decide

end TemePCom.PubSub
