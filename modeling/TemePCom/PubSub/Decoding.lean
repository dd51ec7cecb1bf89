/-
TemePCom/PubSub/Decoding.lean

A published value on its way: from the datagram into a `from_udp`, into the `cli_msg`
of the server, over the connection, and out of `identify_msg` as a line of text.

Everything on that line is what was published, whatever the datagram holds beyond it,
with two exceptions at the ends of the ranges.  A magnitude that is no `int` wraps
around, and a text of 1500 bytes leaves no zero in the payload: it ends with the
padding of the `cli_msg`, if that happens to be zero.
-/
import TemePCom.PubSub.Message
import TemePCom.PubSub.Server
import TemePCom.PubSub.TopicKey

namespace TemePCom.PubSub

open Decimal LittleEndian

/-! ### Publications -/

/-- A text a payload has room for. -/
structure Text where
  bytes : Bytes
  no_nul : 0 ∉ bytes
  le : bytes.length ≤ 1500

/-- A published value: an integer by sign and magnitude, or a text. -/
inductive Value
  | int (negative : Bool) (magnitude : UInt32)
  | string (text : Text)

def Value.type : Value → UInt8
  | .int _ _ => intType
  | .string _ => stringType

/-- The payload: a sign byte and a number in network order, or the text. -/
def Value.payload : Value → Bytes
  | .int negative magnitude => (if negative then 1 else 0) :: (encode 4 magnitude.toNat).reverse
  | .string text => text.bytes

/-- What may follow the payload in a datagram: anything, but a text ends there. -/
def Value.Ends : Value → Bytes → Prop
  | .int _ _, _ => True
  | .string _, tail => ∀ b ∈ tail.head?, b = 0

/-- A datagram with a topic of less than 50 bytes. -/
structure Publication where
  topic : Bytes
  topic_no_nul : 0 ∉ topic
  /-- The topic's field behind the terminator. -/
  field : Bytes
  field_length : topic.length + 1 + field.length = 50
  value : Value
  tail : Bytes
  ends : value.Ends tail

def Publication.datagram (p : Publication) : Bytes :=
  p.topic ++ 0 :: p.field ++ p.value.type :: p.value.payload ++ p.tail

/-- Where a datagram comes from. -/
structure Source where
  octets : Vector UInt8 4
  port : UInt16

/-- `sin_addr` and `sin_port`, in network order. -/
def Source.sinAddr (src : Source) : UInt32 := UInt32.ofNat (value src.octets.toList)
def Source.sinPort (src : Source) : UInt16 := htons src.port

/-- The `cli_msg` for a publication. -/
def Publication.relayed (p : Publication) (src : Source) : CliMsg :=
  ⟨FromUdp.ofBytes p.datagram, src.sinAddr, src.sinPort⟩

/-! ### What is to be printed -/

/-- The integer that is published. -/
def signed (negative : Bool) (magnitude : UInt32) : ℤ :=
  (if negative then -1 else 1) * (magnitude.toNat : ℤ)

def Value.typeText : Value → Bytes
  | .int _ _ => ascii ['I', 'N', 'T']
  | .string _ => ascii ['S', 'T', 'R', 'I', 'N', 'G']

def Value.valueText : Value → Bytes
  | .int negative magnitude => signedDecimal (signed negative magnitude)
  | .string text => text.bytes

/-- The line for a publication. -/
def Publication.line (p : Publication) (src : Source) : Bytes :=
  outputLine (dotted src.octets.toList) src.port.toNat p.topic p.value.typeText p.value.valueText

/-- The values that arrive: an `int`, or a text with a zero behind it. -/
def Value.Fits (padding : Padding) : Value → Prop
  | .int true magnitude => magnitude.toNat ≤ 2147483648
  | .int false magnitude => magnitude.toNat < 2147483648
  | .string text => text.bytes.length < 1500 ∨ padding.inner = 0

/-- The datagram is passed on as `m`: that is what is transmitted at its visit, and what
is stored for the clients that are away. -/
def Server.PassesOn (s : Server) (msg : FromUdp) (ip : UInt32) (port : UInt16) (m : CliMsg) :
    Prop :=
  ∀ beyond s' sent, s.onDatagram msg ip port beyond = .ok (s', sent) →
    (∀ t ∈ sent, t.content = .msg m) ∧
      ∀ (id : Bytes) (c' : Client), s'.saved[id]? = some c' →
        ∃ c, s.saved[id]? = some c ∧ ∀ x ∈ c'.missed, x ∈ c.missed ∨ x = m

/-! ### Relaying -/

section Loop

variable (forClient : CliMsg) (connected : ClientMap) (topic : Bytes)

/-- The loop transmits nothing but the message it is given. -/
theorem sendNewMsgLoop_content (l : List (Bytes × Client)) (saved : ClientMap) :
    ∀ t ∈ (sendNewMsgLoop forClient connected topic l saved).1, t.content = .msg forClient := by
  induction l generalizing saved with
  | nil => exact fun t ht => absurd ht List.not_mem_nil
  | cons p l ih =>
    obtain ⟨key, crt⟩ := p
    unfold sendNewMsgLoop
    split_ifs with hcon
    · exact List.forall_mem_cons.mpr ⟨rfl, ih saved⟩
    · split
      · exact ih saved
      · split_ifs
        · exact ih _
        · exact ih saved

/-- A record that is stored has the message added to what was missed before, if that. -/
theorem missed_modify {saved : ClientMap} {key id : Bytes} {c : Client}
    (h : (saved.modify key (·.addMissed forClient))[id]? = some c) :
    ∃ c₀, saved[id]? = some c₀ ∧ ∀ x ∈ c.missed, x ∈ c₀.missed ∨ x = forClient := by
  by_cases hid : key = id
  · subst hid
    rw [OrdMap.lookup_modify_self] at h
    obtain ⟨c₀, hc₀, rfl⟩ := Option.map_eq_some_iff.mp h
    refine ⟨c₀, hc₀, fun x hx => ?_⟩
    rcases List.mem_append.mp hx with hold | hnew
    · exact Or.inl hold
    · exact Or.inr (List.mem_singleton.mp hnew)
  · rw [OrdMap.lookup_modify_of_ne hid] at h
    exact ⟨c, h, fun x hx => Or.inl hx⟩

/-- The loop stores nothing but the message it is given. -/
theorem sendNewMsgLoop_missed (l : List (Bytes × Client)) (saved : ClientMap) :
    ∀ (id : Bytes) (c' : Client),
      (sendNewMsgLoop forClient connected topic l saved).2[id]? = some c' →
        ∃ c, saved[id]? = some c ∧ ∀ x ∈ c'.missed, x ∈ c.missed ∨ x = forClient := by
  induction l generalizing saved with
  | nil => exact fun id c' hc' => ⟨c', hc', fun x hx => Or.inl hx⟩
  | cons p l ih =>
    obtain ⟨key, crt⟩ := p
    unfold sendNewMsgLoop
    split_ifs with hcon
    · exact ih saved
    · split
      · exact ih saved
      · split_ifs
        · -- stored, and what the rest of the loop stores
          intro id c' hc'
          obtain ⟨c₁, hc₁, hlater⟩ := ih _ id c' hc'
          obtain ⟨c, hc, hnow⟩ := missed_modify forClient hc₁
          refine ⟨c, hc, fun x hx => ?_⟩
          rcases hlater x hx with hx₁ | rfl
          · exact hnow x hx₁
          · exact Or.inr rfl
        · exact ih saved

end Loop

theorem passesOn (s : Server) (msg : FromUdp) (ip : UInt32) (port : UInt16) :
    s.PassesOn msg ip port ⟨msg, ip, port⟩ := by
  intro beyond s' sent h
  unfold Server.onDatagram at h
  rcases htopic : s.topics[msg.topicStr beyond]? with - | topicMap
  · -- only the topic is created
    simp only [htopic, Except.ok.injEq, Prod.mk.injEq] at h
    obtain ⟨rfl, rfl⟩ := h
    refine ⟨fun t ht => absurd ht List.not_mem_nil, fun id c' hc' => ?_⟩
    exact ⟨c', hc', fun x hx => Or.inl hx⟩
  · simp only [htopic] at h
    split_ifs at h
    obtain ⟨rfl, rfl⟩ := Prod.mk.inj (Except.ok.inj h)
    exact ⟨sendNewMsgLoop_content _ _ _ _ _, sendNewMsgLoop_missed _ _ _ _ _⟩

/-! ### Byte order -/

theorem ofNat_mod16 (n : UInt16) : UInt16.ofNat (n.toNat % 256 ^ 2) = n := by
  have hn : n.toNat % 256 ^ 2 = n.toNat := Nat.mod_eq_of_lt n.toNat_lt
  rw [hn, UInt16.ofNat_toNat]

theorem ofNat_mod32 (n : UInt32) : UInt32.ofNat (n.toNat % 256 ^ 4) = n := by
  have hn : n.toNat % 256 ^ 4 = n.toNat := Nat.mod_eq_of_lt n.toNat_lt
  rw [hn, UInt32.ofNat_toNat]

theorem ntohs_ntohs (x : UInt16) : ntohs (ntohs x) = x := by
  have htoNat : (ntohs x).toNat = value (encode 2 x.toNat).reverse := by
    rw [ntohs, UInt16.toNat_ofNat']
    exact Nat.mod_eq_of_lt (value_reverse_encode_lt 2 x.toNat)
  rw [ntohs, htoNat, value_reverse_reverse, ofNat_mod16]

/-- A number in network order is read as it was written. -/
theorem ntohl_load32 (n : UInt32) (rest : Bytes) :
    ntohl (load32 ((encode 4 n.toNat).reverse ++ rest)) = n := by
  have hlen : (encode 4 n.toNat).reverse.length = 4 := by simp
  have htoNat : (load32 ((encode 4 n.toNat).reverse ++ rest)).toNat =
      value (encode 4 n.toNat).reverse := by
    rw [load32, List.take_left' hlen, UInt32.toNat_ofNat']
    exact Nat.mod_eq_of_lt (value_reverse_encode_lt 4 n.toNat)
  rw [ntohl, htoNat, value_reverse_reverse, ofNat_mod32]

theorem inetNtoa_sinAddr (src : Source) : inetNtoa src.sinAddr = dotted src.octets.toList := by
  have hlen : src.octets.toList.length = 4 := src.octets.length_toList
  have hlt := value_lt src.octets.toList
  have hencode := encode_value src.octets.toList
  rw [hlen] at hlt hencode
  have htoNat : src.sinAddr.toNat = value src.octets.toList := by
    rw [Source.sinAddr, UInt32.toNat_ofNat']
    exact Nat.mod_eq_of_lt hlt
  rw [inetNtoa, htoNat, hencode]

/-! ### Decimals -/

theorem signedDecimal_injective : Function.Injective signedDecimal := by
  intro z z' h
  unfold signedDecimal at h
  have hsign : ∀ n n', 0x2d :: numeral n ≠ numeral n' := fun n n' heq =>
    ne_of_mem_numeral (heq ▸ List.mem_cons_self) rfl rfl
  split_ifs at h with hneg hneg' hneg'
  · have := numeral_injective (List.cons.inj h).2
    omega
  · exact absurd h (hsign _ _)
  · exact absurd h.symm (hsign _ _)
  · have := numeral_injective h
    omega

/-! ### The structs in memory -/

/-- An array is read back from where it was copied to. -/
theorem ofFn_getD_append {n : ℕ} (v : Vector UInt8 n) (rest : Bytes) :
    (Vector.ofFn fun i : Fin n => (v.toList ++ rest).getD i 0) = v := by
  apply Vector.ext
  intro i hi
  have hlen : i < v.toList.length := by rwa [v.length_toList]
  rw [Vector.getElem_ofFn, List.getD_append _ _ _ _ hlen, List.getD_eq_getElem _ _ hlen,
    Vector.getElem_toList]

/-- An array is what is copied into it, as far as it goes, and zeros. -/
theorem toList_ofFn_getD_append {n : ℕ} {l : Bytes} (rest : Bytes) (h : l.length ≤ n) :
    (Vector.ofFn fun i : Fin n => (l ++ rest).getD i 0).toList =
      l ++ (rest ++ List.replicate n 0).take (n - l.length) := by
  have htake : l ++ (rest ++ List.replicate n 0).take (n - l.length) =
      ((l ++ rest) ++ List.replicate n 0).take n := by
    have hsplit : (l ++ (rest ++ List.replicate n 0)).take n =
        l.take n ++ (rest ++ List.replicate n 0).take (n - l.length) := List.take_append
    rw [List.append_assoc, hsplit, List.take_of_length_le h]
  rw [htake, Vector.toList_ofFn]
  apply List.ext_getElem
  · simp
    omega
  · intro i hi hi'
    rw [List.getElem_ofFn, List.getElem_take]
    by_cases hin : i < (l ++ rest).length
    · rw [List.getElem_append_left hin, List.getD_eq_getElem _ _ hin]
    · rw [List.getElem_append_right (not_lt.mp hin), List.getElem_replicate,
        List.getD_eq_default _ _ (not_lt.mp hin)]

/-- The type and the payload behind a field of 50 bytes. -/
theorem getD_type {field : Bytes} (h : field.length = 50) (type : UInt8) (payload : Bytes) :
    (field ++ type :: payload).getD 50 0 = type := by
  rw [List.getD_append_right _ _ _ _ h.le, h]
  rfl

theorem drop_payload {field : Bytes} (h : field.length = 50) (type : UInt8) (payload : Bytes) :
    (field ++ type :: payload).drop 51 = payload := by
  rw [List.drop_append, h, List.drop_eq_nil_of_le (by omega)]
  rfl

theorem FromUdp.length_bytes (m : FromUdp) : m.bytes.length = 1551 := by
  simp [FromUdp.bytes]

theorem FromUdp.ofBytes_bytes_append (m : FromUdp) (rest : Bytes) :
    FromUdp.ofBytes (m.bytes ++ rest) = m := by
  obtain ⟨topic, type, payload⟩ := m
  have hlen : topic.toList.length = 50 := topic.length_toList
  have hbytes : FromUdp.bytes ⟨topic, type, payload⟩ ++ rest =
      topic.toList ++ type :: (payload.toList ++ rest) := by
    simp [FromUdp.bytes]
  rw [hbytes, FromUdp.ofBytes, drop_payload hlen, getD_type hlen, ofFn_getD_append,
    ofFn_getD_append]

theorem load32_append (n : UInt32) (rest : Bytes) : load32 (encode 4 n.toNat ++ rest) = n := by
  rw [load32, List.take_left' (length_encode 4 _), value_encode, ofNat_mod32]

theorem load16_append (n : UInt16) (rest : Bytes) : load16 (encode 2 n.toNat ++ rest) = n := by
  rw [load16, List.take_left' (length_encode 2 _), value_encode, ofNat_mod16]

/-- A message is copied out of the buffer as it was copied in, padding included. -/
theorem CliMsg.ofMemory_memory_append (m : CliMsg) (padding : Padding) (rest : Bytes) :
    CliMsg.ofMemory (m.memory padding ++ rest) = (m, padding) := by
  obtain ⟨recvMsg, ip, port⟩ := m
  obtain ⟨inner, outer, outer'⟩ := padding
  set l := CliMsg.memory ⟨recvMsg, ip, port⟩ ⟨inner, outer, outer'⟩ ++ rest with hl
  -- what lies behind the `from_udp`
  let behind := inner :: (encode 4 ip.toNat ++ (encode 2 port.toNat ++ outer :: outer' :: rest))
  have hmemory : l = recvMsg.bytes ++ behind := by
    simp [hl, CliMsg.memory, CliMsg.behind, behind]
  have hdrop : ∀ k, l.drop (1551 + k) = behind.drop k := by
    intro k
    rw [hmemory, ← recvMsg.length_bytes, List.drop_length_add_append]
  have hget : ∀ k, l.getD (1551 + k) 0 = behind.getD k 0 := by
    intro k
    rw [hmemory, List.getD_append_right _ _ _ _ (by rw [recvMsg.length_bytes]; omega),
      recvMsg.length_bytes, Nat.add_sub_cancel_left]
  have hip : load32 (l.drop 1552) = ip := by
    rw [hdrop 1]
    exact load32_append ip _
  have hport : load16 (l.drop 1556) = port := by
    rw [hdrop 5]
    exact load16_append port _
  have hrecv : FromUdp.ofBytes l = recvMsg := by
    rw [hmemory, FromUdp.ofBytes_bytes_append]
  rw [CliMsg.ofMemory, hip, hport, hrecv, hget 0, hget 7, hget 8]
  rfl

theorem CliMsg.length_memory (m : CliMsg) (padding : Padding) :
    (m.memory padding).length = sizeofCliMsg := by
  simp [CliMsg.memory, CliMsg.behind, FromUdp.length_bytes, sizeofCliMsg]

/-- A whole message is handed to `identify_msg`. -/
theorem onMessage_memory (doubles : Doubles) (m : CliMsg) (padding : Padding)
    (beyond beyond' : Bytes) : onMessage doubles (m.memory padding) beyond beyond' =
      .print (identifyMsg doubles m padding beyond') := by
  simp only [onMessage, m.length_memory, CliMsg.ofMemory_memory_append, lt_irrefl, if_false,
    ne_eq, not_true_eq_false]

/-! ### The fields of a relayed publication -/

section Fields

variable (p : Publication) (src : Source)

theorem Value.length_payload_le (v : Value) : v.payload.length ≤ 1500 := by
  cases v with
  | int negative magnitude => simp [Value.payload]
  | string text => exact text.le

theorem Publication.datagram_eq : p.datagram =
    (p.topic ++ 0 :: p.field) ++ p.value.type :: (p.value.payload ++ p.tail) := by
  simp [Publication.datagram]

theorem Publication.length_field : (p.topic ++ 0 :: p.field).length = 50 := by
  have := p.field_length
  simp
  omega

theorem Publication.topic_relayed :
    (p.relayed src).recvMsg.topic.toList = p.topic ++ 0 :: p.field := by
  show (Vector.ofFn fun i : Fin 50 => p.datagram.getD i 0).toList = _
  rw [p.datagram_eq, toList_ofFn_getD_append _ p.length_field.le, p.length_field]
  simp

theorem Publication.type_relayed : (p.relayed src).recvMsg.type = p.value.type := by
  show p.datagram.getD 50 0 = _
  rw [p.datagram_eq, getD_type p.length_field]

theorem Publication.payload_relayed : (p.relayed src).recvMsg.payload.toList =
    p.value.payload ++
      (p.tail ++ List.replicate 1500 0).take (1500 - p.value.payload.length) := by
  have hdrop : p.datagram.drop 51 = p.value.payload ++ p.tail := by
    rw [p.datagram_eq, drop_payload p.length_field]
  show (Vector.ofFn fun i : Fin 1500 => (p.datagram.drop 51).getD i 0).toList = _
  rw [hdrop, toList_ofFn_getD_append _ p.value.length_payload_le]

theorem Publication.topicStr_relayed (beyond : Bytes) :
    (p.relayed src).recvMsg.topicStr beyond = p.topic := by
  rw [FromUdp.topicStr, p.topic_relayed, List.append_assoc, List.append_assoc,
    cString_append p.topic_no_nul]
  simp [cString]

end Fields

/-! ### The values -/

theorem toInt_neg_eq_iff (n : UInt32) :
    (n * (-1)).toBitVec.toInt = -(n.toNat : ℤ) ↔ n.toNat ≤ 2147483648 := by
  have hn := n.toNat_lt
  have htoNat : (n * (-1)).toBitVec.toNat = (4294967296 - n.toNat) % 4294967296 := by
    have hneg : n * (-1) = -n := mul_neg_one n
    rw [hneg, UInt32.toNat_toBitVec, UInt32.toNat_neg]
  rw [BitVec.toInt_eq_toNat_cond, htoNat]
  split_ifs <;> omega

theorem toInt_eq_iff (n : UInt32) :
    n.toBitVec.toInt = (n.toNat : ℤ) ↔ n.toNat < 2147483648 := by
  have hn := n.toNat_lt
  rw [BitVec.toInt_eq_toNat_cond, UInt32.toNat_toBitVec]
  split_ifs <;> omega

/-- The `int` that is read: the sign is applied before the cast. -/
theorem signedVal_payload (negative : Bool) (magnitude : UInt32) (rest : Bytes) :
    signedVal ((Value.int negative magnitude).payload ++ rest) =
      if negative then (magnitude * (-1)).toBitVec.toInt else magnitude.toBitVec.toInt := by
  have hload : ((Value.int negative magnitude).payload ++ rest).drop 1 =
      (encode 4 magnitude.toNat).reverse ++ rest := rfl
  rw [signedVal, hload, ntohl_load32]
  cases negative with
  | true => rfl
  | false => rfl

/-- It is the integer that was published iff that is an `int`. -/
theorem signedVal_eq_iff (negative : Bool) (magnitude : UInt32) (rest : Bytes)
    (padding : Padding) :
    signedVal ((Value.int negative magnitude).payload ++ rest) = signed negative magnitude ↔
      (Value.int negative magnitude).Fits padding := by
  rw [signedVal_payload]
  cases negative with
  | true =>
    rw [if_pos rfl, signed, if_pos rfl, neg_one_mul]
    exact toInt_neg_eq_iff magnitude
  | false =>
    rw [if_neg Bool.false_ne_true, signed, if_neg Bool.false_ne_true, one_mul]
    exact toInt_eq_iff magnitude

theorem cString_append_eq_iff {text : Bytes} (h : 0 ∉ text) (rest : Bytes) :
    cString (text ++ rest) = text ↔ ∀ b ∈ rest.head?, b = 0 := by
  rw [cString_append h, List.append_right_eq_self]
  cases rest <;> simp [cString]

/-- Behind a text, the first zero is in the payload, if there is room for one. -/
theorem cString_payload_iff {text : Text} {tail memory : Bytes} {next : UInt8}
    (h : (Value.string text).Ends tail) :
    cString (text.bytes ++ ((tail ++ List.replicate 1500 0).take (1500 - text.bytes.length) ++
        next :: memory)) = text.bytes ↔ text.bytes.length < 1500 ∨ next = 0 := by
  rw [cString_append_eq_iff text.no_nul]
  rcases Nat.lt_or_eq_of_le text.le with hlt | heq
  · -- what follows the text in the datagram, or a zero
    have hhead : ∀ b ∈ (tail ++ List.replicate 1500 0).head?, b = 0 := by
      cases tail with
      | nil =>
        intro b hb
        exact (List.mem_replicate.mp (List.mem_of_mem_head? hb)).2
      | cons c tail => exact h
    have hne : tail ++ List.replicate 1500 (0 : UInt8) ≠ [] := by
      intro hnil
      have hlen := congrArg List.length hnil
      rw [List.length_append, List.length_replicate, List.length_nil] at hlen
      omega
    obtain ⟨c, rest, hcons⟩ := List.exists_cons_of_ne_nil hne
    obtain ⟨d, hd⟩ := Nat.exists_eq_add_one.mpr (Nat.sub_pos_of_lt hlt)
    rw [hcons] at hhead ⊢
    rw [hd]
    exact iff_of_true hhead (Or.inl hlt)
  · -- the payload is full
    rw [heq, Nat.sub_self, List.take_zero, List.nil_append, List.head?_cons]
    simp

/-! ### The line -/

theorem outputLine_inj {address topic printType val val' : Bytes} {port : ℕ} :
    outputLine address port topic printType val = outputLine address port topic printType val' ↔
      val = val' := by
  unfold outputLine
  rw [List.append_left_inj, List.append_right_inj]

/-- What `identify_msg` prints for a relayed publication: its line, but for the value. -/
theorem identifyMsg_relayed (doubles : Doubles) (p : Publication) (src : Source)
    (padding : Padding) (beyond : Bytes) :
    identifyMsg doubles (p.relayed src) padding beyond =
      outputLine (dotted src.octets.toList) src.port.toNat p.topic p.value.typeText
        (match p.value with
        | .int _ _ => signedDecimal (signedVal (p.relayed src).recvMsg.payload.toList)
        | .string _ => cString ((p.relayed src).recvMsg.payload.toList ++
            (p.relayed src).behind padding ++ beyond)) := by
  have hport : (ntohs (p.relayed src).port) = src.port := ntohs_ntohs src.port
  have haddress : inetNtoa (p.relayed src).ip = dotted src.octets.toList := inetNtoa_sinAddr src
  unfold identifyMsg
  rw [hport, haddress, p.topicStr_relayed]
  have htype := p.type_relayed src
  rcases hvalue : p.value with ⟨negative, magnitude⟩ | text
  · rw [hvalue] at htype
    simp only [printed, htype, Value.type, if_true]
    rfl
  · rw [hvalue] at htype
    have hint : stringType ≠ intType := by decide
    have hshort : stringType ≠ shortType := by decide
    have hfloat : stringType ≠ floatType := by decide
    simp only [printed, htype, Value.type, hint, hshort, hfloat, if_false, if_true]
    rfl

/-- **When a published value arrives**: the server passes every publication on as the
same message, and the subscriber prints its line iff the value fits. -/
theorem onMessage_relayed_iff (doubles : Doubles) (p : Publication) (src : Source)
    (padding : Padding) (beyond beyond' : Bytes) :
    (∀ s : Server,
      s.PassesOn (FromUdp.ofBytes p.datagram) src.sinAddr src.sinPort (p.relayed src)) ∧
      (onMessage doubles ((p.relayed src).memory padding) beyond beyond' = .print (p.line src) ↔
        p.value.Fits padding) := by
  refine ⟨fun s => passesOn s _ _ _, ?_⟩
  rw [onMessage_memory, Reaction.print.injEq, identifyMsg_relayed, Publication.line, outputLine_inj,
    p.payload_relayed]
  rcases hvalue : p.value with ⟨negative, magnitude⟩ | text
  · show signedDecimal (signedVal _) = signedDecimal (signed negative magnitude) ↔ _
    rw [signedDecimal_injective.eq_iff]
    exact signedVal_eq_iff negative magnitude _ padding
  · show cString _ = text.bytes ↔ text.bytes.length < 1500 ∨ padding.inner = 0
    rw [List.append_assoc, List.append_assoc]
    exact cString_payload_iff (hvalue ▸ p.ends)

/-- The number 2147483648, published on the topic `a`. -/
def tooLarge : Publication where
  topic := [0x61]
  topic_no_nul := by decide
  field := List.replicate 48 0
  field_length := rfl
  value := .int false 2147483648
  tail := []
  ends := trivial

def localhost : Source := ⟨#v[127, 0, 0, 1], 4000⟩

/-- The arithmetic on `double` plays no part in it. -/
def noDoubles : Doubles := ⟨fun _ => [], fun _ _ _ => []⟩

/-- It is printed as -2147483648. -/
theorem not_printed_tooLarge :
    onMessage noDoubles ((tooLarge.relayed localhost).memory ⟨0, 0, 0⟩) [] [] =
        .print (ascii "127.0.0.1:4000 a - INT - -2147483648\n".toList) ∧
      onMessage noDoubles ((tooLarge.relayed localhost).memory ⟨0, 0, 0⟩) [] [] ≠
        .print (tooLarge.line localhost) := by
  have hval : signedVal (tooLarge.relayed localhost).recvMsg.payload.toList = -2147483648 := by
    rw [tooLarge.payload_relayed]
    exact signedVal_payload false 2147483648 _
  rw [onMessage_memory, identifyMsg_relayed]
  simp only [tooLarge] at hval ⊢
  rw [hval]
  decide +kernel

end TemePCom.PubSub
