/-
TemePCom/PubSub/ServerSpec.lean

What the functions of the server do, one specification per function, and the
outcomes of a step of the main loop.

The topics' maps are seen through `copyOf topics T id`, the copy of a client's
record that a subscription has left in the map of a topic.  `Outcome` lists what
a step can do, with its guards; everything that is proved about runs starts from
`outcome_of_visit`.
-/
import TemePCom.PubSub.Server

namespace TemePCom.PubSub

open OrdMap

/-! ### Copies in the topics -/

/-- The copy of a client's record in the map of a topic. -/
def copyOf (topics : Topics) (topic id : Bytes) : Option Client :=
  topics[topic]?.bind fun topicMap => topicMap[id]?

section CopyOf

variable {topics : Topics} {T T' id id' : Bytes} {c : Client} {topicMap : ClientMap}

theorem copyOf_eq (h : topics[T]? = some topicMap) : copyOf topics T id = topicMap[id]? := by
  rw [copyOf, h, Option.bind_some]

theorem exists_topic (h : copyOf topics T id = some c) :
    ∃ topicMap, topics[T]? = some topicMap ∧ topicMap[id]? = some c :=
  Option.bind_eq_some_iff.mp h

/-- A new topic has no subscribers. -/
theorem copyOf_newTopic : copyOf (newTopic topics T) T' id = copyOf topics T' id := by
  by_cases hT : T = T'
  · subst hT
    rcases h : topics[T]? with - | topicMap
    · rw [copyOf, newTopic, lookup_insertIfNew_self h, copyOf, h]
      exact lookup_empty
    · rw [copyOf, newTopic, lookup_insertIfNew_of_some h, copyOf, h]
  · rw [copyOf, newTopic, lookup_insertIfNew_of_ne hT, copyOf]

theorem copyOf_modify {f : ClientMap → ClientMap} : copyOf (topics.modify T f) T' id =
    if T = T' then topics[T']?.bind fun topicMap => (f topicMap)[id]? else copyOf topics T' id := by
  by_cases hT : T = T'
  · subst hT
    rw [if_pos rfl, copyOf, lookup_modify_self, Option.bind_map]
    rfl
  · rw [if_neg hT, copyOf, lookup_modify_of_ne hT, copyOf]

/-- Unsubscribing erases one copy. -/
theorem copyOf_erase : copyOf (topics.modify T (·.erase id)) T' id' =
    if T = T' ∧ id = id' then none else copyOf topics T' id' := by
  rw [copyOf_modify]
  by_cases hT : T = T'
  · subst hT
    rcases h : topics[T]? with - | topicMap
    · simp [copyOf, h]
    · by_cases hid : id = id'
      · subst hid
        rw [if_pos rfl, Option.bind_some, lookup_erase_self, if_pos ⟨rfl, rfl⟩]
      · rw [if_pos rfl, Option.bind_some, lookup_erase_of_ne hid, if_neg fun hc => hid hc.2,
          copyOf_eq h]
  · simp [hT]

/-- Subscribing adds one copy, where there was none. -/
theorem copyOf_insert (h : topics[T]? = some topicMap) (hid : topicMap[id]? = none) :
    copyOf (topics.modify T (·.insertIfNew id c)) T' id' =
      if T = T' ∧ id = id' then some c else copyOf topics T' id' := by
  rw [copyOf_modify]
  by_cases hT : T = T'
  · subst hT
    rw [if_pos rfl, h, Option.bind_some]
    by_cases hid' : id = id'
    · subst hid'
      rw [lookup_insertIfNew_self hid, if_pos ⟨rfl, rfl⟩]
    · rw [lookup_insertIfNew_of_ne hid', if_neg fun hc => hid' hc.2, copyOf_eq h]
  · simp [hT]

end CopyOf

/-- Every client is filed under its id. -/
def KeysAreIds (clients : ClientMap) : Prop :=
  ∀ (id : Bytes) (c : Client), clients[id]? = some c → c.id = id

/-! ### `send_new_msg` -/

@[simp] theorem Client.id_stored (m : CliMsg) (T : Bytes) (c : Client) :
    (c.stored m T).id = c.id := by
  unfold Client.stored
  split_ifs <;> rfl

@[simp] theorem Client.sf_stored (m : CliMsg) (T : Bytes) (c : Client) :
    (c.stored m T).sf = c.sf := by
  unfold Client.stored
  split_ifs <;> rfl

section SendNewMsg

variable {forClient : CliMsg} {connected : ClientMap} {topic : Bytes}

/-- The connected subscribers are sent the message, in the order of their ids. -/
theorem sendNewMsgLoop_sent {l : List (Bytes × Client)} (hid : ∀ p ∈ l, p.2.id = p.1)
    (saved : ClientMap) : (sendNewMsgLoop forClient connected topic l saved).1 =
      (l.filter fun p => p.1 ∈ connected).map fun p => ⟨p.2.clientSocket, .msg forClient⟩ := by
  induction l generalizing saved with
  | nil => rfl
  | cons p l ih =>
    obtain ⟨key, crt⟩ := p
    have hcrt : crt.id = key := hid (key, crt) List.mem_cons_self
    have hrest : ∀ p ∈ l, p.2.id = p.1 := fun p hp => hid p (List.mem_cons_of_mem _ hp)
    unfold sendNewMsgLoop
    rw [hcrt]
    by_cases hcon : key ∈ connected
    · simp [hcon, ih hrest]
    · -- nothing is transmitted to the others, whatever is stored
      rcases saved[key]? with - | client
      · simp [hcon, ih hrest]
      · by_cases htopic : topic ∈ client.sf <;> simp [hcon, ih hrest, htopic]

/-- The saved subscribers with the topic in their SF list store the message. -/
theorem sendNewMsgLoop_saved {l : List (Bytes × Client)} (hid : ∀ p ∈ l, p.2.id = p.1)
    (hnodup : (l.map Prod.fst).Nodup) (saved : ClientMap) (id : Bytes) :
    (sendNewMsgLoop forClient connected topic l saved).2[id]? =
      if id ∈ l.map Prod.fst ∧ id ∉ connected then
        saved[id]?.map (Client.stored forClient topic)
      else saved[id]? := by
  induction l generalizing saved with
  | nil => simp [sendNewMsgLoop]
  | cons p l ih =>
    obtain ⟨key, crt⟩ := p
    have hcrt : crt.id = key := hid (key, crt) List.mem_cons_self
    have hrest : ∀ p ∈ l, p.2.id = p.1 := fun p hp => hid p (List.mem_cons_of_mem _ hp)
    rw [List.map_cons, List.nodup_cons] at hnodup
    have ih := ih hrest hnodup.2
    unfold sendNewMsgLoop
    rw [hcrt, List.map_cons]
    have hother : id ≠ key → ((id ∈ key :: l.map Prod.fst ∧ id ∉ connected) ↔
        (id ∈ l.map Prod.fst ∧ id ∉ connected)) := by
      intro hkey
      rw [List.mem_cons, or_iff_right hkey]
    by_cases hcon : key ∈ connected
    · rw [if_pos hcon, ih]
      by_cases hkey : id = key
      · rw [if_neg fun h => h.2 (hkey ▸ hcon), if_neg fun h => h.2 (hkey ▸ hcon)]
      · simp only [hother hkey]
    · rw [if_neg hcon]
      by_cases hkey : id = key
      · -- the entry of `id` itself; its key does not come again
        subst hkey
        have hnot : ¬ (id ∈ l.map Prod.fst ∧ id ∉ connected) := fun h => hnodup.1 h.1
        rw [if_pos ⟨List.mem_cons_self, hcon⟩]
        rcases hsaved : saved[id]? with - | client
        · simp only [ih, if_neg hnot, hsaved, Option.map_none]
        · by_cases htopic : topic ∈ client.sf
          · simp only [htopic, if_true, ih, if_neg hnot, lookup_modify_self, hsaved,
              Option.map_some, Client.stored]
          · simp only [htopic, if_false, ih, if_neg hnot, hsaved, Option.map_some,
              Client.stored]
      · simp only [hother hkey]
        rcases hsaved : saved[key]? with - | client
        · exact ih saved
        · by_cases htopic : topic ∈ client.sf
          · simp only [htopic, if_true, ih, lookup_modify_of_ne (Ne.symm hkey)]
          · simp only [htopic, if_false, ih]

variable {topicMap saved : ClientMap}

theorem mem_sendNewMsg (hid : KeysAreIds topicMap) {t : Transmission} :
    t ∈ (sendNewMsg topicMap forClient connected saved topic).1 ↔
      ∃ (id : Bytes) (c : Client), topicMap[id]? = some c ∧ id ∈ connected ∧
        t = ⟨c.clientSocket, .msg forClient⟩ := by
  rw [sendNewMsg, sendNewMsgLoop_sent fun p hp => hid p.1 p.2 (mem_toList.mp hp)]
  simp only [List.mem_map, List.mem_filter, decide_eq_true_eq, Prod.exists, mem_toList]
  constructor
  · rintro ⟨id, c, ⟨hc, hcon⟩, rfl⟩
    exact ⟨id, c, hc, hcon, rfl⟩
  · rintro ⟨id, c, hc, hcon, rfl⟩
    exact ⟨id, c, ⟨hc, hcon⟩, rfl⟩

/-- Nothing is transmitted twice if the connected subscribers' copies have
different descriptors. -/
theorem nodup_sendNewMsg (hid : KeysAreIds topicMap)
    (hinj : ∀ (id id' : Bytes) (c c' : Client), topicMap[id]? = some c → topicMap[id']? = some c' →
      id ∈ connected → id' ∈ connected → c.clientSocket = c'.clientSocket → id = id') :
    (sendNewMsg topicMap forClient connected saved topic).1.Nodup := by
  rw [sendNewMsg, sendNewMsgLoop_sent fun p hp => hid p.1 p.2 (mem_toList.mp hp)]
  refine List.Nodup.map_on ?_ (((nodup_keys topicMap).of_map _).filter _)
  rintro ⟨id, c⟩ hp ⟨id', c'⟩ hp' heq
  simp only [List.mem_filter, mem_toList, decide_eq_true_eq] at hp hp'
  -- the same descriptor, so the same client
  simp only [Transmission.mk.injEq, and_true] at heq
  obtain rfl := hinj id id' c c' hp.1 hp'.1 hp.2 hp'.2 heq
  rw [hp.1] at hp'
  obtain rfl := Option.some.inj hp'.1
  rfl

theorem sendNewMsg_saved (hid : KeysAreIds topicMap) (id : Bytes) :
    (sendNewMsg topicMap forClient connected saved topic).2[id]? =
      if topicMap[id]?.isSome ∧ connected[id]? = none then
        saved[id]?.map (Client.stored forClient topic)
      else saved[id]? := by
  rw [sendNewMsg, sendNewMsgLoop_saved (fun p hp => hid p.1 p.2 (mem_toList.mp hp))
    (nodup_keys topicMap)]
  have hmem : id ∈ topicMap.toList.map Prod.fst ↔ topicMap[id]?.isSome := by simp
  simp only [hmem, not_mem_iff]

/-- The saved clients stay saved, and only their queues change. -/
theorem saved_of_sendNewMsg (hid : KeysAreIds topicMap) {id : Bytes} {c : Client}
    (hc : (sendNewMsg topicMap forClient connected saved topic).2[id]? = some c) :
    ∃ c₀, saved[id]? = some c₀ ∧ c.id = c₀.id ∧ c.sf = c₀.sf := by
  rw [sendNewMsg_saved hid] at hc
  split_ifs at hc
  · obtain ⟨c₀, hc₀, rfl⟩ := Option.map_eq_some_iff.mp hc
    exact ⟨c₀, hc₀, Client.id_stored .., Client.sf_stored ..⟩
  · exact ⟨c, hc, rfl, rfl⟩

end SendNewMsg

/-! ### Connections -/

/-- The record of a client that comes back. -/
def Client.reconnected (c : Client) (newFd : ℕ) : Client :=
  { c with missed := [], clientSocket := newFd }

/-- The record a client is connected with. -/
def admitted (saved : ClientMap) (newFd : ℕ) (id : Bytes) : Client :=
  match saved[id]? with
  | some c => c.reconnected newFd
  | none => Client.new newFd id

/-- What waits for a client. -/
def missedOf (saved : ClientMap) (id : Bytes) : List CliMsg :=
  match saved[id]? with
  | some c => c.missed
  | none => []

theorem sendMissed_eq {saved connected : ClientMap} {id : Bytes} {newFd : ℕ} {c : Client}
    (h : saved[id]? = some c) : sendMissed saved connected id newFd =
      some (saved.erase id, connected.insertIfNew id (c.reconnected newFd),
        c.missed.map fun msg => ⟨newFd, .msg msg⟩) := by
  simp only [sendMissed, h, drainMissed_eq]
  rfl

/-- **A client is let in**: its descriptor is watched, it is connected with its
saved record if there is one, is sent what it missed, and is not saved any more. -/
theorem welcome_eq (s : Server) (newFd : ℕ) (id : Bytes) :
    s.welcome newFd id = ({ s with
      openFds := insert newFd s.openFds
      readFds := insert newFd s.readFds
      fdmax := max s.fdmax newFd
      connected := s.connected.insertIfNew id (admitted s.saved newFd id)
      saved := s.saved.erase id },
      (missedOf s.saved id).map fun msg => ⟨newFd, .msg msg⟩) := by
  rcases h : s.saved[id]? with - | c
  · simp only [Server.welcome, sendMissed, admitted, missedOf, h, List.map_nil, erase_eq_self h]
  · simp only [Server.welcome, sendMissed_eq h, admitted, missedOf, h]

section Welcome

variable (s : Server) (newFd : ℕ) (id : Bytes)

theorem connected_welcome : (s.welcome newFd id).1.next.connected =
    s.connected.insertIfNew id (admitted s.saved newFd id) := by
  rw [welcome_eq]
  rfl

theorem saved_welcome : (s.welcome newFd id).1.next.saved = s.saved.erase id := by
  rw [welcome_eq]
  rfl

theorem topics_welcome : (s.welcome newFd id).1.next.topics = s.topics := by
  rw [welcome_eq]
  rfl

theorem readFds_welcome : (s.welcome newFd id).1.next.readFds = insert newFd s.readFds := by
  rw [welcome_eq]
  rfl

end Welcome

/-- The search for a client by its descriptor. -/
theorem findId_spec {connected : ClientMap} {fd : ℕ}
    (h : ∃ (id : Bytes) (c : Client), connected[id]? = some c ∧ c.clientSocket = fd) :
    ∃ c, connected[findId connected fd]? = some c ∧ c.clientSocket = fd := by
  obtain ⟨id, c, hc, hfd⟩ := h
  -- some entry has the descriptor, so the loop breaks at one that has it
  rcases hfind : connected.toList.find? (fun elem => elem.2.clientSocket = fd) with - | ⟨key, c'⟩
  · rw [List.find?_eq_none] at hfind
    exact absurd hfd (by simpa using hfind (id, c) (mem_toList.mpr hc))
  · obtain ⟨hlookup, hfd'⟩ := lookup_of_find hfind
    refine ⟨c', ?_, by simpa using hfd'⟩
    rw [findId, hfind]
    exact hlookup

/-! ### Requests -/

/-- The topics after `subscribe` has made sure that the topic exists. -/
def withTopic (topics : Topics) (topic : Bytes) : Topics :=
  if topic ∈ topics then topics else newTopic topics topic

theorem copyOf_withTopic {topics : Topics} {T T' id : Bytes} :
    copyOf (withTopic topics T) T' id = copyOf topics T' id := by
  unfold withTopic
  split_ifs
  · rfl
  · exact copyOf_newTopic

theorem exists_withTopic (topics : Topics) (T : Bytes) :
    ∃ topicMap, (withTopic topics T)[T]? = some topicMap := by
  unfold withTopic
  split_ifs with h
  · exact mem_iff.mp h
  · exact ⟨∅, lookup_insertIfNew_self (not_mem_iff.mp h)⟩

section Subscribe

variable {sockfd : ℕ} {T id : Bytes} {sf : Bool} {topics : Topics} {connected : ClientMap}

theorem subscribe_of_copy {c : Client} (h : copyOf topics T id = some c) :
    subscribe sockfd T sf topics connected id =
      .ok (withTopic topics T, connected, [⟨sockfd, .opcode .alreadySub⟩]) := by
  obtain ⟨topicMap, hmap⟩ := exists_withTopic topics T
  have hid : id ∈ topicMap := by
    rw [← copyOf_withTopic, copyOf_eq hmap] at h
    exact mem_of_lookup h
  unfold withTopic at hmap ⊢
  simp only [subscribe, hmap, hid, if_true]

theorem subscribe_of_none {c : Client} (h : copyOf topics T id = none)
    (hcon : connected[id]? = some c) : subscribe sockfd T sf topics connected id =
      .ok ((withTopic topics T).modify T (·.insertIfNew id c),
        if sf then connected.modify id (·.addSf T) else connected,
        [⟨sockfd, .opcode .subscribed⟩]) := by
  obtain ⟨topicMap, hmap⟩ := exists_withTopic topics T
  have hid : id ∉ topicMap := by
    rw [← copyOf_withTopic, copyOf_eq hmap] at h
    exact not_mem_iff.mpr h
  unfold withTopic at hmap ⊢
  simp only [subscribe, hmap, hid, if_false, hcon]

/-- The connected clients after a subscription: at most one SF list is longer. -/
theorem lookup_subscribe {flag : Prop} [Decidable flag] {id' : Bytes} :
    (if flag then connected.modify id (·.addSf T) else connected)[id']? =
      connected[id']?.map fun c => if flag ∧ id = id' then c.addSf T else c := by
  by_cases hflag : flag
  · rw [if_pos hflag]
    by_cases hid : id = id'
    · subst hid
      simp only [lookup_modify_self, hflag, and_self, if_true]
    · simp only [lookup_modify_of_ne hid, hid, and_false, if_false, Option.map_id']
  · simp only [hflag, false_and, if_false, Option.map_id']

theorem subscribe_error (h : copyOf topics T id = none) (hcon : connected[id]? = none) :
    subscribe sockfd T sf topics connected id = .error .outOfRange := by
  obtain ⟨topicMap, hmap⟩ := exists_withTopic topics T
  have hid : id ∉ topicMap := by
    rw [← copyOf_withTopic, copyOf_eq hmap] at h
    exact not_mem_iff.mpr h
  unfold withTopic at hmap
  simp only [subscribe, hmap, hid, if_false, hcon]

/-- After a subscription its copy is in the topic, and nothing else has changed. -/
theorem copyOf_subscribe {T' id' : Bytes} {c : Client} (h : copyOf topics T id = none) :
    copyOf ((withTopic topics T).modify T (·.insertIfNew id c)) T' id' =
      if T = T' ∧ id = id' then some c else copyOf topics T' id' := by
  obtain ⟨topicMap, hmap⟩ := exists_withTopic topics T
  rw [copyOf_insert hmap (by rw [← copyOf_eq hmap, copyOf_withTopic, h]), copyOf_withTopic]

end Subscribe

/-! ### The outcomes of a step -/

/-- The loop visits the descriptor of a client. -/
structure Server.Visiting (k : Sockets) (s : Server) : Prop where
  ready : s.i ∈ s.tmpFds
  ne_udp : s.i ≠ k.udp
  ne_tcp : s.i ≠ k.tcp

/-- The client whose request is handled. -/
def Server.requester (s : Server) : Bytes := findId s.connected s.i

/-- The topic of a request. -/
abbrev requestTopic (frame beyond : Bytes) : Bytes := (FromTcp.ofBytes frame).topicStr beyond

/-- Everything a step can do. -/
inductive Outcome (k : Sockets) (s : Server) : Event → Server → List Transmission → Prop
  | select {ready : Finset ℕ} (hready : ready ⊆ s.readFds) :
      Outcome k s (.select ready) { s with tmpFds := ready, i := 1 } []
  | skip : Outcome k s .skip s.next []
  | newTopic {msg : FromUdp} {ip : UInt32} {port : UInt16} {beyond : Bytes}
      (hnone : s.topics[msg.topicStr beyond]? = none) :
      Outcome k s (.datagram msg ip port beyond)
        { s with topics := newTopic s.topics (msg.topicStr beyond) }.next []
  | published {msg : FromUdp} {ip : UInt32} {port : UInt16} {beyond : Bytes}
      {topicMap : ClientMap} (htopic : s.topics[msg.topicStr beyond]? = some topicMap) :
      Outcome k s (.datagram msg ip port beyond)
        { s with
          saved := (sendNewMsg topicMap ⟨msg, ip, port⟩ s.connected s.saved
            (msg.topicStr beyond)).2 }.next
        (sendNewMsg topicMap ⟨msg, ip, port⟩ s.connected s.saved (msg.topicStr beyond)).1
  | leaked {newFd : ℕ} {beyond : Bytes} :
      Outcome k s (.accept newFd [] beyond) { s with openFds := insert newFd s.openFds }.next []
  | duplicate {newFd : ℕ} {frame beyond : Bytes} {c : Client}
      (hcon : s.connected[clientId frame beyond]? = some c) :
      Outcome k s (.accept newFd frame beyond) s.next [⟨newFd, .opcode .exit⟩]
  | welcomed {newFd : ℕ} {frame beyond : Bytes} (hframe : frame ≠ []) (hfd : newFd ∉ s.openFds)
      (hnew : s.connected[clientId frame beyond]? = none) :
      Outcome k s (.accept newFd frame beyond)
        (s.welcome newFd (clientId frame beyond)).1.next
        (s.welcome newFd (clientId frame beyond)).2
  | disconnected {beyond : Bytes} {c : Client} (hvisit : s.Visiting k)
      (hcon : s.connected[s.requester]? = some c) :
      Outcome k s (.request [] beyond)
        { s with
          connected := s.connected.erase s.requester
          saved := if c.sf = [] then s.saved else s.saved.insertIfNew s.requester c
          readFds := s.readFds.erase s.i
          openFds := s.openFds.erase s.i }.next []
  | unsubscribed {frame beyond : Bytes} (hframe : frame ≠ [])
      (htype : (FromTcp.ofBytes frame).type = unsubscribeType)
      (htopic : requestTopic frame beyond ∈ s.topics) :
      Outcome k s (.request frame beyond)
        { s with
          topics := s.topics.modify (requestTopic frame beyond) (·.erase s.requester) }.next
        [⟨s.i, .opcode .unsubscribed⟩]
  | noTopic {frame beyond : Bytes} (hframe : frame ≠ [])
      (htype : (FromTcp.ofBytes frame).type = unsubscribeType) :
      Outcome k s (.request frame beyond) s.next [⟨s.i, .opcode .noTopic⟩]
  | alreadySub {frame beyond : Bytes} {c : Client} (hframe : frame ≠ [])
      (htype : (FromTcp.ofBytes frame).type = subscribeType)
      (hcopy : copyOf s.topics (requestTopic frame beyond) s.requester = some c) :
      Outcome k s (.request frame beyond)
        { s with topics := withTopic s.topics (requestTopic frame beyond) }.next
        [⟨s.i, .opcode .alreadySub⟩]
  | subscribed {frame beyond : Bytes} {c : Client} (hframe : frame ≠ [])
      (htype : (FromTcp.ofBytes frame).type = subscribeType)
      (hcopy : copyOf s.topics (requestTopic frame beyond) s.requester = none)
      (hcon : s.connected[s.requester]? = some c) :
      Outcome k s (.request frame beyond)
        { s with
          topics := (withTopic s.topics (requestTopic frame beyond)).modify
            (requestTopic frame beyond) (·.insertIfNew s.requester c)
          connected := if (FromTcp.ofBytes frame).sf ≠ 0 then
              s.connected.modify s.requester (·.addSf (requestTopic frame beyond))
            else s.connected }.next
        [⟨s.i, .opcode .subscribed⟩]
  | unknown {frame beyond : Bytes} (hframe : frame ≠ [])
      (htype : (FromTcp.ofBytes frame).type ≠ unsubscribeType ∧
        (FromTcp.ofBytes frame).type ≠ subscribeType) :
      Outcome k s (.request frame beyond) s.next []

section Handlers

variable {k : Sockets} {s s' : Server} {sent : List Transmission} {msg : FromUdp} {ip : UInt32}
  {port : UInt16} {newFd : ℕ} {frame beyond : Bytes}

theorem outcome_of_datagram (h : s.step (.datagram msg ip port beyond) = .ok (s', sent)) :
    Outcome k s (.datagram msg ip port beyond) s' sent := by
  rcases htopic : s.topics[msg.topicStr beyond]? with - | topicMap
  · simp only [Server.step, Server.onDatagram, htopic, Except.map] at h
    obtain ⟨rfl, rfl⟩ := Prod.mk.inj (Except.ok.inj h)
    exact .newTopic htopic
  · simp only [Server.step, Server.onDatagram, htopic] at h
    split_ifs at h
    · obtain ⟨rfl, rfl⟩ := Prod.mk.inj (Except.ok.inj h)
      exact .published htopic
    · cases h

theorem outcome_of_accept (hfd : newFd ∉ s.openFds)
    (h : s.step (.accept newFd frame beyond) = .ok (s', sent)) :
    Outcome k s (.accept newFd frame beyond) s' sent := by
  simp only [Server.step, Server.onAccept] at h
  split_ifs at h with hover hframe
  · cases h
  · obtain ⟨rfl, rfl⟩ := Prod.mk.inj (Except.ok.inj h)
    subst hframe
    exact .leaked
  · rcases hcon : s.connected[clientId frame beyond]? with - | c
    · simp only [alreadyConnected, not_mem_iff.mpr hcon, if_false, Except.map] at h
      obtain ⟨rfl, rfl⟩ := Prod.mk.inj (Except.ok.inj h)
      exact .welcomed hframe hfd hcon
    · simp only [alreadyConnected, mem_of_lookup hcon, if_true, Except.map] at h
      obtain ⟨rfl, rfl⟩ := Prod.mk.inj (Except.ok.inj h)
      exact .duplicate hcon

/-- A request that is no disconnection, by its type. -/
theorem outcome_of_msgFromClient {topics : Topics} {connected : ClientMap} (hframe : frame ≠ [])
    (h : msgFromClient s.i (FromTcp.ofBytes frame) beyond s.topics s.connected
      (findId s.connected s.i) = .ok (topics, connected, sent)) :
    Outcome k s (.request frame beyond)
      { s with
        topics := topics
        connected := connected }.next sent := by
  by_cases hunsub : (FromTcp.ofBytes frame).type = unsubscribeType
  · by_cases htopic : requestTopic frame beyond ∈ s.topics
    · simp only [msgFromClient, hunsub, if_true, unsubscribe, htopic] at h
      cases h
      exact .unsubscribed hframe hunsub htopic
    · simp only [msgFromClient, hunsub, if_true, unsubscribe, htopic, if_false] at h
      cases h
      exact .noTopic hframe hunsub
  · by_cases hsub : (FromTcp.ofBytes frame).type = subscribeType
    · simp only [msgFromClient, if_neg hunsub, if_pos hsub] at h
      rcases hcopy : copyOf s.topics (requestTopic frame beyond)
        (findId s.connected s.i) with - | c
      · -- `connected.at(id)`
        rcases hcon : s.connected[findId s.connected s.i]? with - | c
        · rw [subscribe_error hcopy hcon] at h
          cases h
        · rw [subscribe_of_none hcopy hcon] at h
          cases h
          simp only [decide_eq_true_eq]
          exact .subscribed hframe hsub hcopy hcon
      · rw [subscribe_of_copy hcopy] at h
        cases h
        exact .alreadySub hframe hsub hcopy
    · simp only [msgFromClient, hunsub, hsub, if_false] at h
      cases h
      exact .unknown hframe ⟨hunsub, hsub⟩

theorem outcome_of_request (hvisit : s.Visiting k)
    (h : s.step (.request frame beyond) = .ok (s', sent)) :
    Outcome k s (.request frame beyond) s' sent := by
  simp only [Server.step, Server.onRequest] at h
  split_ifs at h with hover hframe
  · cases h
  · subst hframe
    -- `connected.at(id)`
    rcases hcon : s.connected[findId s.connected s.i]? with - | c
    · simp only [clientDisconnected, hcon, Except.map, reduceCtorEq] at h
    · simp only [clientDisconnected, hcon, Except.map] at h
      obtain ⟨rfl, rfl⟩ := Prod.mk.inj (Except.ok.inj h)
      exact .disconnected hvisit hcon
  · rcases hmsg : msgFromClient s.i (FromTcp.ofBytes frame) beyond s.topics s.connected
      (findId s.connected s.i) with fault | ⟨topics, connected, sent'⟩
    · simp only [hmsg, Except.map, reduceCtorEq] at h
    · simp only [hmsg, Except.map] at h
      obtain ⟨rfl, rfl⟩ := Prod.mk.inj (Except.ok.inj h)
      exact outcome_of_msgFromClient hframe hmsg

/-- **The outcomes of a step**, with their guards. -/
theorem outcome_of_visit {e : Event} (hv : s.visit k e = some (s', sent)) :
    Outcome k s e s' sent := by
  obtain ⟨hen, h⟩ := Server.visit_eq_some.mp hv
  cases e with
  | select ready =>
    obtain ⟨rfl, rfl⟩ := Prod.mk.inj (Except.ok.inj h)
    exact .select hen.2
  | skip =>
    obtain ⟨rfl, rfl⟩ := Prod.mk.inj (Except.ok.inj h)
    exact .skip
  | datagram msg ip port beyond => exact outcome_of_datagram h
  | accept newFd frame beyond => exact outcome_of_accept hen.2.2.2 h
  | request frame beyond => exact outcome_of_request ⟨hen.2.1, hen.2.2.1, hen.2.2.2⟩ h

end Handlers

end TemePCom.PubSub
