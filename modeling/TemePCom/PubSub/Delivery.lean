/-
TemePCom/PubSub/Delivery.lean

Who receives a datagram.

`send_new_msg` transmits on the descriptor of the copy of a subscriber's record
that lies in the topic's map, while a reconnection sets the descriptor of the
record among the connected clients only.  The copies are right as long as every
client that comes back is given the descriptor its subscriptions have recorded.
-/
import TemePCom.PubSub.Bookkeeping

namespace TemePCom.PubSub

open OrdMap Runs

/-- A message on any existing topic is transmitted once to every client that is
subscribed and connected, on its descriptor, and nothing else is transmitted. -/
def ExactDelivery (s : Server) : Prop :=
  ∀ (T : Bytes) (topicMap : ClientMap) (msg : CliMsg), s.topics[T]? = some topicMap →
    (sendNewMsg topicMap msg s.connected s.saved T).1.Nodup ∧
      ∀ t, t ∈ (sendNewMsg topicMap msg s.connected s.saved T).1 ↔
        ∃ (id : Bytes) (c : Client), id ∈ topicMap ∧ s.connected[id]? = some c ∧
          t = ⟨c.clientSocket, .msg msg⟩

/-- A datagram of zeros. -/
def blankMsg : CliMsg := ⟨⟨Vector.replicate 50 0, 0, Vector.replicate 1500 0⟩, 0, 0⟩

/-- A client that is let in gets the descriptor its subscriptions have recorded. -/
def KeepsDescriptor (s : Server) : Event → Prop
  | .accept newFd frame beyond => frame ≠ [] → s.connected[clientId frame beyond]? = none →
      ∀ T copy, copyOf s.topics T (clientId frame beyond) = some copy →
        copy.clientSocket = newFd
  | _ => True

/-- The copies of a connected client's record have its descriptor. -/
def Agree (s : Server) : Prop :=
  ∀ T id copy fd, copyOf s.topics T id = some copy → s.socketOf id = some fd →
    copy.clientSocket = fd

variable {k : Sockets} {s s' : Server} {e : Event} {sent : List Transmission}

theorem keysAreIds_topic (h : Records s) {T : Bytes} {topicMap : ClientMap}
    (htopic : s.topics[T]? = some topicMap) : KeysAreIds topicMap := fun id c hc =>
  h.copy_id T id c ((copyOf_eq htopic).trans hc)

/-! ### One state -/

theorem exactDelivery_of_agree (hdesc : Descriptors k s) (hrec : Records s) (h : Agree s) :
    ExactDelivery s := by
  intro T topicMap msg htopic
  have hids := keysAreIds_topic hrec htopic
  have hsocket : ∀ (id : Bytes) (copy : Client), topicMap[id]? = some copy →
      id ∈ s.connected → s.socketOf id = some copy.clientSocket := by
    intro id copy hcopy hcon
    obtain ⟨c, hc⟩ := mem_iff.mp hcon
    rw [h T id copy c.clientSocket ((copyOf_eq htopic).trans hcopy) (socketOf_eq hc)]
    exact socketOf_eq hc
  refine ⟨nodup_sendNewMsg hids ?_, fun t => ?_⟩
  · intro id id' copy copy' hcopy hcopy' hcon hcon' heq
    exact hdesc.inj id id' copy.clientSocket (hsocket id copy hcopy hcon)
      (heq ▸ hsocket id' copy' hcopy' hcon')
  · rw [mem_sendNewMsg hids]
    constructor
    · rintro ⟨id, copy, hcopy, hcon, rfl⟩
      obtain ⟨c, hc, hfd⟩ := exists_of_socketOf (hsocket id copy hcopy hcon)
      exact ⟨id, c, mem_of_lookup hcopy, hc, by rw [hfd]⟩
    · rintro ⟨id, c, hmem, hc, rfl⟩
      obtain ⟨copy, hcopy⟩ := mem_iff.mp hmem
      have hfd := h T id copy c.clientSocket ((copyOf_eq htopic).trans hcopy) (socketOf_eq hc)
      exact ⟨id, copy, hcopy, mem_of_lookup hc, by rw [hfd]⟩

/-- The descriptors that a message on the topic is transmitted on. -/
def receivers (s : Server) (T : Bytes) : List ℕ :=
  match s.topics[T]? with
  | none => []
  | some topicMap =>
    (sendNewMsg topicMap blankMsg s.connected s.saved T).1.map Transmission.fd

theorem mem_receivers_of_exactDelivery {T id : Bytes} {copy : Client} {fd : ℕ}
    (h : ExactDelivery s) (hcopy : copyOf s.topics T id = some copy)
    (hfd : s.socketOf id = some fd) : fd ∈ receivers s T := by
  obtain ⟨topicMap, htopic, hmem⟩ := exists_topic hcopy
  obtain ⟨c, hc, rfl⟩ := exists_of_socketOf hfd
  rw [receivers, htopic]
  exact List.mem_map.mpr ⟨⟨c.clientSocket, .msg blankMsg⟩,
    ((h T topicMap blankMsg htopic).2 _).mpr ⟨id, c, mem_of_lookup hmem, hc, rfl⟩, rfl⟩

/-- Messages go to the descriptors in the connected subscribers' copies. -/
theorem exists_copy_of_mem_receivers (hrec : Records s) {T : Bytes} {fd : ℕ}
    (h : fd ∈ receivers s T) : ∃ id copy, copyOf s.topics T id = some copy ∧
      id ∈ s.connected ∧ copy.clientSocket = fd := by
  unfold receivers at h
  rcases htopic : s.topics[T]? with - | topicMap
  · simp [htopic] at h
  · simp only [htopic] at h
    obtain ⟨t, ht, rfl⟩ := List.mem_map.mp h
    obtain ⟨id, copy, hcopy, hcon, rfl⟩ := (mem_sendNewMsg (keysAreIds_topic hrec htopic)).mp ht
    exact ⟨id, copy, (copyOf_eq htopic).trans hcopy, hcon, rfl⟩

/-! ### Steps -/

/-- A step that connects nobody and adds no copies. -/
theorem Agree.congr (h : Agree s)
    (hcopy : ∀ T id copy, copyOf s'.topics T id = some copy → copyOf s.topics T id = some copy)
    (hsock : ∀ id fd, s'.socketOf id = some fd → s.socketOf id = some fd) : Agree s' :=
  fun T id copy fd hc hfd => h T id copy fd (hcopy T id copy hc) (hsock id fd hfd)

theorem agree_step (h : Agree s) (ho : Outcome k s e s' sent) (hkeep : KeepsDescriptor s e) :
    Agree s' := by
  cases ho with
  | newTopic _ =>
    exact h.congr (fun T id copy hc => copyOf_newTopic.symm.trans hc) fun _ _ hfd => hfd
  | welcomed hframe hfd hnew =>
    intro T id copy fd hcopy hsock
    rw [topics_welcome] at hcopy
    rcases (socketOf_welcome hnew).mp hsock with ⟨rfl, rfl⟩ | hold
    · exact hkeep hframe hnew T copy hcopy
    · exact h T id copy fd hcopy hold
  | disconnected _ _ =>
    refine h.congr (fun _ _ _ hc => hc) fun id fd hfd => ?_
    obtain ⟨c, hc, hsocket⟩ := exists_of_socketOf hfd
    exact hsocket ▸ socketOf_eq (lookup_of_erase hc).2
  | unsubscribed _ _ _ =>
    refine h.congr (fun T id copy hc => ?_) fun _ _ hfd => hfd
    replace hc := copyOf_erase.symm.trans hc
    split_ifs at hc
    exact hc
  | alreadySub _ _ _ =>
    exact h.congr (fun T id copy hc => copyOf_withTopic.symm.trans hc) fun _ _ hfd => hfd
  | @subscribed frame beyond c _ _ hcopy hcon =>
    intro T id copy fd hc hfd
    have hfd' : s.socketOf id = some fd := socketOf_subscribe.symm.trans hfd
    replace hc := (copyOf_subscribe hcopy).symm.trans hc
    split_ifs at hc with hid
    · -- the new copy is the record of the requester
      obtain rfl := Option.some.inj hc
      rw [← hid.2, socketOf_eq hcon] at hfd'
      exact Option.some.inj hfd'
    · exact h T id copy fd hc hfd'
  | select | skip | published | leaked | duplicate | noTopic | unknown =>
    exact h.congr (fun _ _ _ hc => hc) fun _ _ hfd => hfd

/-- Letting a client in with another descriptor than its subscriptions have
recorded spoils the delivery on these topics. -/
theorem not_exactDelivery_of_moved {newFd : ℕ} {id T : Bytes} {copy : Client}
    (hdesc : Descriptors k s) (hrec : Records s) (h : Agree s) (hfd : newFd ∉ s.openFds)
    (hnew : s.connected[id]? = none) (hcopy : copyOf s.topics T id = some copy)
    (hmoved : copy.clientSocket ≠ newFd) : ¬ ExactDelivery (s.welcome newFd id).1.next := by
  intro hexact
  have htopics := topics_welcome s newFd id
  have hrec' := hrec.welcome newFd id
  have hself := (socketOf_welcome hnew).mpr (Or.inl ⟨rfl, rfl⟩ : id = id ∧ newFd = newFd ∨ _)
  have hmem := mem_receivers_of_exactDelivery hexact
    (htopics.symm ▸ hcopy : copyOf (s.welcome newFd id).1.next.topics T id = some copy) hself
  -- the message for `id` would have to go to the new descriptor, but no copy has it
  obtain ⟨id', copy', hcopy', hcon', hcopyfd⟩ := exists_copy_of_mem_receivers hrec' hmem
  rw [htopics] at hcopy'
  obtain ⟨c', hc'⟩ := mem_iff.mp hcon'
  rcases (socketOf_welcome hnew).mp (socketOf_eq hc') with ⟨rfl, -⟩ | hold
  · -- the copy of `id` has the old one
    obtain rfl := Option.some.inj (hcopy.symm.trans hcopy')
    exact hmoved hcopyfd
  · -- the others' are open, and the new one was not
    have hagree := h T id' copy' c'.clientSocket hcopy' hold
    have hopen := hdesc.isOpen (hdesc.watched id' _ hold).1
    rw [← hagree, hcopyfd] at hopen
    exact hfd hopen

/-! ### Runs -/

/-- **When every delivery is exact.**  Along a run every datagram is delivered
exactly iff every client that is let in gets the descriptor its subscriptions
have recorded. -/
theorem exactDelivery_iff (k : Sockets) (es : List Event) :
    Along (Server.Next k) ExactDelivery (Server.start k) es ↔
      Each (Server.Next k) KeepsDescriptor (Server.start k) es := by
  refine along_iff_each (fun s => (Descriptors k s ∧ Records s) ∧ Agree s) ?_ ?_ ?_
    ⟨⟨descriptors_start k, records_start k⟩, ?_⟩
  · rintro s e s' ⟨hinv, hagree⟩ hnext hkeep
    obtain ⟨sent, ho⟩ := next_outcome hnext
    exact ⟨invariants_step hinv hnext, agree_step hagree ho hkeep⟩
  · exact fun s hs => exactDelivery_of_agree hs.1.1 hs.1.2 hs.2
  · rintro s e s' ⟨⟨hdesc, hrec⟩, hagree⟩ hnext hmiss
    obtain ⟨sent, ho⟩ := next_outcome hnext
    cases ho with
    | welcomed hframe hfd hnew =>
      simp only [KeepsDescriptor] at hmiss
      push Not at hmiss
      obtain ⟨-, -, T, copy, hcopy, hmoved⟩ := hmiss
      exact not_exactDelivery_of_moved hdesc hrec hagree hfd hnew hcopy hmoved
    | leaked => exact absurd (fun hframe => absurd rfl hframe) hmiss
    | duplicate hcon =>
      refine absurd (fun _ hnew => ?_) hmiss
      cases hcon.symm.trans hnew
    | select | skip | newTopic | published | disconnected | unsubscribed | noTopic | alreadySub |
      subscribed | unknown => exact absurd trivial hmiss
  · intro T id copy fd hcopy
    obtain ⟨topicMap, htopic, -⟩ := exists_topic hcopy
    cases lookup_empty.symm.trans htopic

/-! ### A descriptor that changes hands -/

/-- The bytes of a request for a topic of one letter. -/
def requestFor (type letter sf : UInt8) : Bytes := type :: letter :: List.replicate 49 0 ++ [sf]

/-- `a` connects, subscribes to `t` and leaves; `b` is given its descriptor, and
`a` comes back on another one. -/
def takenOver : List Event :=
  pass 5 6 (.accept 6 [0x61] []) ++ pass 6 6 (.request (requestFor 1 0x74 0) []) ++
    pass 6 6 (.request [] []) ++ pass 5 6 (.accept 6 [0x62] []) ++
    pass 5 7 (.accept 7 [0x61] [])

/-- What `a` is sent goes to `b`. -/
theorem not_exactDelivery_takenOver : ∃ s,
    Reachable (Server.Next someSockets) (Server.start someSockets) s ∧ ¬ ExactDelivery s := by
  have hrun : ((Server.start someSockets).exec someSockets takenOver).map (fun s =>
      ((copyOf s.topics [0x74] [0x61]).isSome, s.socketOf [0x61], receivers s [0x74])) =
      some (true, some 7, [6]) := by
    decide +kernel
  obtain ⟨s, hs, hview⟩ := Option.map_eq_some_iff.mp hrun
  simp only [Prod.mk.injEq, Option.isSome_iff_exists] at hview
  obtain ⟨⟨copy, hcopy⟩, hfd, hreceivers⟩ := hview
  refine ⟨s, ⟨takenOver, Server.run_of_exec hs⟩, fun hexact => ?_⟩
  have hmem := mem_receivers_of_exactDelivery hexact hcopy hfd
  rw [hreceivers] at hmem
  exact absurd hmem (by decide)

end TemePCom.PubSub
