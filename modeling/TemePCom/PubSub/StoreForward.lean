/-
TemePCom/PubSub/StoreForward.lean

Store and forward.

What waits for a disconnected client is the queue of its saved record, which
`send_new_msg` fills by the SF list of that record.  `unsubscribe` takes the
client out of the topic and leaves the SF list alone, so a topic that has been
subscribed to with SF, left, and subscribed to again without SF is still stored.

`storedExactly_iff` is about the contents of the queues and what is sent of them;
`storesForSf_iff` about the single message that is put into a queue.
-/
import TemePCom.PubSub.Delivery
import TemePCom.PubSub.History

namespace TemePCom.PubSub

open OrdMap Runs

/-- If the client connects now, `send_missed` transmits these messages, and
connects it with an empty queue and this SF list. -/
def Server.Forwards (s : Server) (id : Bytes) (msgs : List CliMsg) (sf : List Bytes) : Prop :=
  ∀ newFd, ∃ saved connected c,
    sendMissed s.saved s.connected id newFd =
        some (saved, connected, msgs.map fun msg => ⟨newFd, .msg msg⟩) ∧
      connected[id]? = some c ∧ c.missed = [] ∧ c.sf = sf

/-- A disconnected client with SF subscriptions is saved, its queue holds the
messages it has to be sent, and these are what it will be sent. -/
def StoredExactly (t : Tracked) : Prop :=
  ∀ id, (∃ T, t.Active id T) → id ∉ t.srv.connected →
    ∃ c, t.srv.saved[id]? = some c ∧ c.missed = t.hist.expected id ∧
      t.srv.Forwards id (t.hist.expected id) c.sf

/-- No datagram comes in on a topic that a disconnected client with SF
subscriptions still has in its SF list while it is subscribed to it without SF. -/
def KeepsQueues (t : Tracked) : Event → Prop
  | .datagram msg _ _ beyond => ∀ id c, id ∉ t.srv.connected → (∃ T, t.Active id T) →
      t.srv.saved[id]? = some c → t.hist.subs id (msg.topicStr beyond) = some false →
        msg.topicStr beyond ∉ c.sf
  | _ => True

/-- The queues hold what is expected. -/
def Queued (t : Tracked) : Prop :=
  ∀ id c, t.srv.saved[id]? = some c → (∃ T, t.Active id T) → c.missed = t.hist.expected id

variable {k : Sockets} {t t' : Tracked} {e : Event} {s s' : Server} {g : History}

/-! ### One state -/

theorem forwards_of_saved {id : Bytes} {c : Client} (hcon : s.connected[id]? = none)
    (h : s.saved[id]? = some c) : s.Forwards id c.missed c.sf := fun newFd =>
  ⟨s.saved.erase id, s.connected.insertIfNew id (c.reconnected newFd), c.reconnected newFd,
    sendMissed_eq h, lookup_insertIfNew_self hcon, rfl, rfl⟩

theorem saved_of_active (h : Faithful t) {id T : Bytes} (hact : t.Active id T)
    (hcon : t.srv.connected[id]? = none) : ∃ c, t.srv.saved[id]? = some c ∧ T ∈ c.sf := by
  rw [← recordOf_of_not_connected hcon]
  exact h.active_sf id T hact

theorem storedExactly_of_queued (h : Faithful t) (hq : Queued t) : StoredExactly t := by
  rintro id ⟨T, hact⟩ hcon
  have hnone := not_mem_iff.mp hcon
  obtain ⟨c, hc, -⟩ := saved_of_active h hact hnone
  have hmissed : c.missed = t.hist.expected id := hq id c hc ⟨T, hact⟩
  exact ⟨c, hc, hmissed, hmissed ▸ forwards_of_saved hnone hc⟩

/-! ### Steps -/

/-- A step that stores nothing and makes nobody subscribe with SF. -/
theorem Queued.congr {g' : History} (h : Queued ⟨s, g⟩)
    (hsaved : ∀ (id : Bytes) (c : Client), s'.saved[id]? = some c → s.saved[id]? = some c)
    (hact : ∀ (id : Bytes) (c : Client) (T : Bytes), s'.saved[id]? = some c →
      g'.subs id T = some true → g.subs id T = some true)
    (hexp : ∀ (id : Bytes) (c : Client), s'.saved[id]? = some c →
      g'.expected id = g.expected id) : Queued ⟨s', g'⟩ := by
  rintro id c hc ⟨T, hT⟩
  exact (h id c (hsaved id c hc) ⟨T, hact id c T hc hT⟩).trans (hexp id c hc).symm

section Publish

variable {msg : FromUdp} {ip : UInt32} {port : UInt16} {beyond : Bytes} {topicMap : ClientMap}

/-- What `send_new_msg` does with the record of a client. -/
theorem saved_publish {T id : Bytes} {forClient : CliMsg} {c : Client} (hf : Faithful ⟨s, g⟩)
    (hrec : Records s) (htopic : s.topics[T]? = some topicMap) (hc : s.saved[id]? = some c) :
    (sendNewMsg topicMap forClient s.connected s.saved T).2[id]? =
      some (if (g.subs id T).isSome then c.stored forClient T else c) := by
  have hnone : s.connected[id]? = none :=
    (hrec.disjoint id).resolve_right (by rw [hc]; simp)
  have hsub : (g.subs id T).isSome ↔ topicMap[id]?.isSome := by
    rw [← copyOf_eq htopic]
    exact hf.subs_iff id T
  rw [sendNewMsg_saved (keysAreIds_topic hrec htopic), hc]
  by_cases h : (g.subs id T).isSome
  · rw [if_pos ⟨hsub.mp h, hnone⟩, if_pos h, Option.map_some]
  · rw [if_neg fun hand => h (hsub.mpr hand.1), if_neg h]

theorem Queued.publish {sent : List Transmission} (hq : Queued ⟨s, g⟩) (hf : Faithful ⟨s, g⟩)
    (hrec : Records s) (htopic : s.topics[msg.topicStr beyond]? = some topicMap)
    (hkeep : KeepsQueues ⟨s, g⟩ (.datagram msg ip port beyond)) : Queued ⟨{ s with
      saved := (sendNewMsg topicMap ⟨msg, ip, port⟩ s.connected s.saved
        (msg.topicStr beyond)).2 }.next, g.record s sent (.datagram msg ip port beyond)⟩ := by
  rintro id c' hc' hact
  obtain ⟨c, hc, -⟩ := saved_of_sendNewMsg (keysAreIds_topic hrec htopic) hc'
  have hnone : s.connected[id]? = none :=
    (hrec.disjoint id).resolve_right (by rw [hc]; simp)
  have hcon : id ∉ s.connected := not_mem_iff.mpr hnone
  have hmissed : c.missed = g.expected id := hq id c hc hact
  obtain rfl : _ = c' := Option.some.inj ((saved_publish hf hrec htopic hc).symm.trans hc')
  show Client.missed _ = if id ∉ s.connected ∧ g.subs id (msg.topicStr beyond) = some true then
    g.expected id ++ [⟨msg, ip, port⟩] else g.expected id
  rcases hsub : g.subs id (msg.topicStr beyond) with - | - | -
  · -- not subscribed
    simpa using hmissed
  · -- subscribed without SF: the topic is not in the SF list
    have hsf := hkeep id c hcon hact hc hsub
    simpa [Client.stored, hsf] using hmissed
  · -- subscribed with SF: stored, and expected
    obtain ⟨c₁, hc₁, hsf⟩ := saved_of_active hf hsub hnone
    obtain rfl := Option.some.inj (hc.symm.trans hc₁)
    simp [Client.stored, hsf, hcon, Client.addMissed, hmissed]

/-- A message that is stored for a subscription without SF spoils the queue. -/
theorem not_storedExactly_of_stale {sent : List Transmission} {id : Bytes} {c : Client}
    (hq : Queued ⟨s, g⟩) (hf : Faithful ⟨s, g⟩) (hrec : Records s)
    (htopic : s.topics[msg.topicStr beyond]? = some topicMap) (hcon : id ∉ s.connected)
    (hact : ∃ T, Tracked.Active ⟨s, g⟩ id T) (hc : s.saved[id]? = some c)
    (hsub : g.subs id (msg.topicStr beyond) = some false) (hsf : msg.topicStr beyond ∈ c.sf) :
    ¬ StoredExactly ⟨{ s with
      saved := (sendNewMsg topicMap ⟨msg, ip, port⟩ s.connected s.saved
        (msg.topicStr beyond)).2 }.next, g.record s sent (.datagram msg ip port beyond)⟩ := by
  intro hstored
  obtain ⟨c', hc', hmissed', -⟩ := hstored id hact hcon
  obtain rfl : _ = c' := Option.some.inj ((saved_publish hf hrec htopic hc).symm.trans hc')
  have hexp : (g.record s sent (.datagram msg ip port beyond)).expected id = g.expected id :=
    if_neg fun hand => by cases hsub.symm.trans hand.2
  have hmissed : c.missed = g.expected id := hq id c hc hact
  simp [hexp, hsub, Client.stored, hsf, Client.addMissed, hmissed] at hmissed'

end Publish

theorem Queued.welcome {newFd : ℕ} {id : Bytes} (h : Queued ⟨s, g⟩) :
    Queued ⟨(s.welcome newFd id).1.next,
      { g with expected := fun id' => if id = id' then [] else g.expected id' }⟩ := by
  have hsaved : ∀ (id' : Bytes) (c : Client),
      (s.welcome newFd id).1.next.saved[id']? = some c → id ≠ id' ∧ s.saved[id']? = some c := by
    intro id' c hc
    rw [saved_welcome] at hc
    exact lookup_of_erase hc
  exact h.congr (fun id' c hc => (hsaved id' c hc).2) (fun _ _ _ _ hT => hT)
    fun id' c hc => if_neg (hsaved id' c hc).1

theorem Queued.disconnect {c : Client} {id : Bytes} {readFds openFds : Finset ℕ}
    (h : Queued ⟨s, g⟩) (hf : Faithful ⟨s, g⟩) (hrec : Records s)
    (hcon : s.connected[id]? = some c) : Queued ⟨{ s with
      connected := s.connected.erase id
      saved := if c.sf = [] then s.saved else s.saved.insertIfNew id c
      readFds := readFds
      openFds := openFds }.next, g⟩ := by
  rintro id' c' hc' hact
  have hsaved : s.saved[id']? = some c' ∨ (id = id' ∧ c = c') := by
    replace hc' : (if c.sf = [] then s.saved else s.saved.insertIfNew id c)[id']? = some c' := hc'
    split_ifs at hc'
    · exact Or.inl hc'
    · rcases lookup_of_insertIfNew hc' with hold | ⟨rfl, rfl, -⟩
      · exact Or.inl hold
      · exact Or.inr ⟨rfl, rfl⟩
  rcases hsaved with hold | ⟨rfl, rfl⟩
  · exact h id' c' hold hact
  · -- it leaves with an empty queue, and nothing has come in for it yet
    exact (hrec.missed_nil id c hcon).trans (hf.expected_nil id (mem_of_lookup hcon)).symm

theorem queued_step (hrec : Records t.srv) (hf : Faithful t) (hq : Queued t)
    (hnext : Tracked.Next k t e t') (hkeep : KeepsQueues t e) : Queued t' := by
  obtain ⟨-, sent, ho, hhist⟩ := tracked_outcome hnext
  obtain ⟨s, g⟩ := t
  obtain ⟨s', g'⟩ := t'
  simp only at ho hhist hrec
  subst hhist
  cases ho with
  | select | skip | leaked =>
    exact hq.congr (fun _ _ hc => hc) (fun _ _ _ _ hT => hT) fun _ _ _ => by
      simp [History.record]
  | newTopic hnone =>
    -- nobody is subscribed to a topic that did not exist
    refine hq.congr (fun _ _ hc => hc) (fun _ _ _ _ hT => hT) fun id c hc => if_neg ?_
    rw [hf.subs_none hnone]
    simp
  | published htopic => exact hq.publish hf hrec htopic hkeep
  | duplicate hcon =>
    rw [record_duplicate hcon]
    exact hq
  | welcomed hframe hfd hnew =>
    rw [record_welcomed hframe hnew]
    exact hq.welcome
  | disconnected hvisit hcon =>
    rw [record_unanswered]
    exact hq.disconnect hf hrec hcon
  | @unsubscribed frame beyond _ _ _ =>
    rw [record_unsubscribed]
    refine hq.congr (fun _ _ hc => hc) (fun id _ T _ hT => ?_) fun _ _ _ => rfl
    replace hT : (if s.requester = id ∧ requestTopic frame beyond = T then none
      else g.subs id T) = some true := hT
    split_ifs at hT
    exact hT
  | noTopic | alreadySub =>
    rw [record_refused (by decide) (by decide)]
    exact hq
  | @subscribed frame beyond _ _ _ hcopy hcon =>
    rw [record_subscribed]
    refine hq.congr (fun _ _ hc => hc) (fun id c T hc hT => ?_) fun _ _ _ => rfl
    -- the requester is connected, so it is not saved
    have hne : s.requester ≠ id := by
      rintro rfl
      rcases hrec.disjoint s.requester with hnone | hnone
      · cases hcon.symm.trans hnone
      · cases hnone.symm.trans hc
    replace hT : (if s.requester = id ∧ requestTopic frame beyond = T then _
      else g.subs id T) = some true := hT
    rwa [if_neg fun hand => hne hand.1] at hT
  | unknown =>
    rw [record_unanswered]
    exact hq

theorem not_storedExactly_step (hrec : Records t.srv) (hf : Faithful t) (hq : Queued t)
    (hnext : Tracked.Next k t e t') (hmiss : ¬ KeepsQueues t e) : ¬ StoredExactly t' := by
  obtain ⟨-, sent, ho, hhist⟩ := tracked_outcome hnext
  obtain ⟨s, g⟩ := t
  obtain ⟨s', g'⟩ := t'
  simp only at ho hhist hrec
  subst hhist
  cases e with
  | datagram msg ip port beyond =>
    simp only [KeepsQueues] at hmiss
    push Not at hmiss
    obtain ⟨id, c, hcon, hact, hc, hsub, hsf⟩ := hmiss
    cases ho with
    | newTopic hnone => cases (hf.subs_none hnone id).symm.trans hsub
    | published htopic =>
      exact not_storedExactly_of_stale hq hf hrec htopic hcon hact hc hsub hsf
  | select | skip | accept | request => exact absurd trivial hmiss

/-! ### Runs -/

/-- **When store and forward is exact.**  Along a run the clients with SF
subscriptions are stored and sent exactly what comes in for these subscriptions
iff no message comes in on a topic that such a client, disconnected, still has in
its SF list while it is subscribed to it without SF. -/
theorem storedExactly_iff (k : Sockets) (es : List Event) :
    Along (Tracked.Next k) StoredExactly (Tracked.start k) es ↔
      Each (Tracked.Next k) KeepsQueues (Tracked.start k) es := by
  refine along_iff_each
    (fun t => (Descriptors k t.srv ∧ Records t.srv) ∧ Faithful t ∧ Queued t) ?_ ?_ ?_
    ⟨⟨descriptors_start k, records_start k⟩, faithful_start k, ?_⟩
  · rintro t e t' ⟨hinv, hf, hq⟩ hnext hkeep
    exact ⟨invariants_step hinv (tracked_outcome hnext).1, faithful_step hinv hf hnext,
      queued_step hinv.2 hf hq hnext hkeep⟩
  · rintro t ⟨-, hf, hq⟩
    exact storedExactly_of_queued hf hq
  · rintro t e t' ⟨hinv, hf, hq⟩ hnext hmiss
    exact not_storedExactly_step hinv.2 hf hq hnext hmiss
  · intro id c hc
    cases lookup_empty.symm.trans hc

/-! ### A topic left and taken up again -/

/-- A datagram of zeros on the topic `t`. -/
def letterMsg : FromUdp :=
  ⟨⟨#[0x74] ++ Array.replicate 49 0, by simp⟩, 0, Vector.replicate 1500 0⟩

/-- `a` subscribes to `u` and to `t` with SF, leaves `t`, subscribes to it again
without SF, and disconnects; then a message comes in on `t`. -/
def takenUpAgain : List Event :=
  pass 5 6 (.accept 6 [0x61] []) ++ pass 6 6 (.request (requestFor 1 0x75 1) []) ++
    pass 6 6 (.request (requestFor 1 0x74 1) []) ++
    pass 6 6 (.request (requestFor 0 0x74 0) []) ++
    pass 6 6 (.request (requestFor 1 0x74 0) []) ++ pass 6 6 (.request [] []) ++
    pass 4 6 (.datagram letterMsg 0 0 [])

/-- The message is stored, though nothing has come in for the subscription to `u`. -/
theorem not_storedExactly_takenUpAgain : ∃ t,
    Reachable (Tracked.Next someSockets) (Tracked.start someSockets) t ∧ ¬ StoredExactly t := by
  have hrun : ((Tracked.start someSockets).exec someSockets takenUpAgain).map (fun t =>
      (decide (t.Active [0x61] [0x75]), decide (([0x61] : Bytes) ∈ t.srv.connected),
        t.srv.saved[([0x61] : Bytes)]?.map fun c => c.missed.length,
        (t.hist.expected [0x61]).length)) = some (true, false, some 1, 0) := by
    decide +kernel
  obtain ⟨t, ht, hview⟩ := Option.map_eq_some_iff.mp hrun
  simp only [Prod.mk.injEq, decide_eq_true_eq, decide_eq_false_iff_not] at hview
  obtain ⟨hact, hcon, hsaved, hexp⟩ := hview
  refine ⟨t, ⟨takenUpAgain, Tracked.run_of_exec ht⟩, fun hstored => ?_⟩
  obtain ⟨c, hc, hmissed, -⟩ := hstored [0x61] ⟨[0x75], hact⟩ hcon
  rw [hc, Option.map_some, hmissed, hexp] at hsaved
  exact absurd hsaved (by decide)

/-! ### What is put into a queue -/

/-- The messages that wait for a disconnected client. -/
def Server.queueOf (s : Server) (id : Bytes) : List CliMsg :=
  (s.saved[id]?.map Client.missed).getD []

/-- Where a queue has got something that was not in it, a message has come in, it
is this message that has been added, and the client is disconnected and is
subscribed to its topic with SF. -/
def StoresForSf (t : Tracked) (e : Event) (t' : Tracked) : Prop :=
  ∀ id, ¬ t'.srv.queueOf id <+: t.srv.queueOf id → ∃ msg ip port beyond,
    e = .datagram msg ip port beyond ∧ id ∉ t.srv.connected ∧
      t'.srv.queueOf id = t.srv.queueOf id ++ [⟨msg, ip, port⟩] ∧
      t.Active id (msg.topicStr beyond)

/-- No message comes in on a topic that a saved client is subscribed to without
SF and still has in its SF list. -/
def NoStaleSf (t : Tracked) : Event → Prop
  | .datagram msg _ _ beyond => ∀ id c, t.srv.saved[id]? = some c →
      t.hist.subs id (msg.topicStr beyond) = some false → msg.topicStr beyond ∉ c.sf
  | _ => True

theorem queueOf_eq {id : Bytes} {c : Client} (h : s.saved[id]? = some c) :
    s.queueOf id = c.missed := by
  rw [Server.queueOf, h, Option.map_some, Option.getD_some]

/-- A queue that the next state has kept, or that is empty there. -/
theorem queueOf_not_longer {id : Bytes}
    (h : ∀ c, s'.saved[id]? = some c → c.missed = [] ∨ s.saved[id]? = some c) :
    s'.queueOf id <+: s.queueOf id := by
  rcases hc : s'.saved[id]? with - | c
  · rw [Server.queueOf, hc]
    exact List.nil_prefix
  · rw [queueOf_eq hc]
    rcases h c hc with hnil | hold
    · rw [hnil]
      exact List.nil_prefix
    · rw [queueOf_eq hold]

/-- Only a message that is published makes a queue longer. -/
theorem queueOf_step (hrec : Records s) {sent : List Transmission} (ho : Outcome k s e s' sent)
    (hpub : ∀ msg ip port beyond, e = .datagram msg ip port beyond →
      s.topics[msg.topicStr beyond]? = none) (id : Bytes) :
    s'.queueOf id <+: s.queueOf id := by
  apply queueOf_not_longer
  intro c' hc'
  cases ho with
  | published htopic => cases (hpub _ _ _ _ rfl).symm.trans htopic
  | welcomed =>
    rw [saved_welcome] at hc'
    exact Or.inr (lookup_of_erase hc').2
  | @disconnected _ c _ hcon =>
    -- it was connected, so nothing waits for it
    replace hc' : (if c.sf = [] then s.saved else s.saved.insertIfNew s.requester c)[id]? =
      some c' := hc'
    split_ifs at hc'
    · exact Or.inr hc'
    · rcases lookup_of_insertIfNew hc' with hold | ⟨-, rfl, -⟩
      · exact Or.inr hold
      · exact Or.inl (hrec.missed_nil _ c hcon)
  | select | skip | newTopic | leaked | duplicate | unsubscribed | noTopic | alreadySub |
    subscribed | unknown => exact Or.inr hc'

section Stored

variable {msg : FromUdp} {ip : UInt32} {port : UInt16} {beyond : Bytes} {topicMap : ClientMap}

/-- A published message is added to the queue of a saved client that is subscribed
and has the topic in its SF list. -/
theorem queueOf_publish (ip : UInt32) (port : UInt16) {id : Bytes}
    (hf : Faithful ⟨s, g⟩) (hrec : Records s)
    (htopic : s.topics[msg.topicStr beyond]? = some topicMap) {c : Client}
    (hc : s.saved[id]? = some c) : Server.queueOf { s with
      saved := (sendNewMsg topicMap ⟨msg, ip, port⟩ s.connected s.saved
        (msg.topicStr beyond)).2 }.next id =
      if (g.subs id (msg.topicStr beyond)).isSome ∧ msg.topicStr beyond ∈ c.sf then
        s.queueOf id ++ [⟨msg, ip, port⟩] else s.queueOf id := by
  rw [queueOf_eq (saved_publish hf hrec htopic hc), queueOf_eq hc]
  by_cases hsub : (g.subs id (msg.topicStr beyond)).isSome
  · by_cases hsf : msg.topicStr beyond ∈ c.sf
    · simp [hsub, hsf, Client.stored, Client.addMissed]
    · simp [hsub, hsf, Client.stored]
  · simp [hsub]

theorem storesForSf_publish {g' : History} (hf : Faithful ⟨s, g⟩)
    (hrec : Records s) (htopic : s.topics[msg.topicStr beyond]? = some topicMap) :
    StoresForSf ⟨s, g⟩ (.datagram msg ip port beyond) ⟨{ s with
      saved := (sendNewMsg topicMap ⟨msg, ip, port⟩ s.connected s.saved
        (msg.topicStr beyond)).2 }.next, g'⟩ ↔
      NoStaleSf ⟨s, g⟩ (.datagram msg ip port beyond) := by
  constructor
  · -- a stale topic: the message is stored for a subscription without SF
    intro hstores id c hc hsub hsf
    have hqueue := queueOf_publish ip port hf hrec htopic hc
    simp only at hsub
    rw [if_pos ⟨by rw [hsub]; rfl, hsf⟩] at hqueue
    have hgrown : ¬ s.queueOf id ++ [(⟨msg, ip, port⟩ : CliMsg)] <+: s.queueOf id :=
      fun hprefix => by simpa using hprefix.length_le
    obtain ⟨_, _, _, _, hev, -, -, hact⟩ := hstores id (hqueue ▸ hgrown)
    cases hev
    cases hsub.symm.trans hact
  · intro hkeep id hgrown
    rcases hc : s.saved[id]? with - | c
    · refine absurd (queueOf_not_longer fun c' hc' => ?_) hgrown
      obtain ⟨c, hold, -⟩ := saved_of_sendNewMsg (keysAreIds_topic hrec htopic) hc'
      cases hc.symm.trans hold
    have hqueue := queueOf_publish ip port hf hrec htopic hc
    by_cases hstored : (g.subs id (msg.topicStr beyond)).isSome ∧ msg.topicStr beyond ∈ c.sf
    · rw [if_pos hstored] at hqueue
      refine ⟨msg, ip, port, beyond, rfl, ?_, hqueue, ?_⟩
      · exact not_mem_iff.mpr ((hrec.disjoint id).resolve_right (by rw [hc]; simp))
      · -- subscribed, and not without SF
        obtain ⟨hsub, hsf⟩ := hstored
        rcases hflag : g.subs id (msg.topicStr beyond) with - | - | -
        · rw [hflag] at hsub
          cases hsub
        · exact absurd hsf (hkeep id c hc hflag)
        · exact hflag
    · rw [if_neg hstored] at hqueue
      exact absurd (hqueue ▸ List.prefix_rfl) hgrown

end Stored

theorem storesForSf_step (hrec : Records t.srv) (hf : Faithful t) (hnext : Tracked.Next k t e t') :
    StoresForSf t e t' ↔ NoStaleSf t e := by
  obtain ⟨-, sent, ho, -⟩ := tracked_outcome hnext
  obtain ⟨s, g⟩ := t
  obtain ⟨s', g'⟩ := t'
  simp only at ho hrec
  cases e with
  | datagram msg ip port beyond =>
    rcases htopic : s.topics[msg.topicStr beyond]? with - | topicMap
    · -- nobody is subscribed to a topic that does not exist
      refine iff_of_true (fun id hgrown => absurd ?_ hgrown) fun id c _ hsub => ?_
      · refine queueOf_step hrec ho (fun _ _ _ _ he => ?_) id
        cases he
        exact htopic
      · cases (hf.subs_none htopic id).symm.trans hsub
    · cases ho with
      | newTopic hnone => cases htopic.symm.trans hnone
      | published htopic => exact storesForSf_publish hf hrec htopic
  | select | skip | accept | request =>
    exact iff_of_true (fun id hgrown => absurd
      (queueOf_step hrec ho (fun _ _ _ _ he => nomatch he) id) hgrown) trivial

/-- **When only the current subscription counts.**  Along a run messages are stored
for subscriptions with SF only iff no message comes in on a topic that a saved
client is subscribed to without SF and still has in its SF list. -/
theorem storesForSf_iff (k : Sockets) (es : List Event) :
    Steps (Tracked.Next k) StoresForSf (Tracked.start k) es ↔
      Each (Tracked.Next k) NoStaleSf (Tracked.start k) es := by
  refine steps_iff_each (fun t => (Descriptors k t.srv ∧ Records t.srv) ∧ Faithful t) ?_ ?_
    ⟨⟨descriptors_start k, records_start k⟩, faithful_start k⟩
  · rintro t e t' ⟨hinv, hf⟩ hnext
    exact ⟨invariants_step hinv (tracked_outcome hnext).1, faithful_step hinv hf hnext⟩
  · rintro t e t' ⟨hinv, hf⟩ hnext
    exact storesForSf_step hinv.2 hf hnext

/-- `a` subscribes to `t` with SF, leaves it, subscribes to it again without SF,
and disconnects; then the UDP socket is ready. -/
def takenUpWithoutSf : List Event :=
  pass 5 6 (.accept 6 [0x61] []) ++ pass 6 6 (.request (requestFor 1 0x74 1) []) ++
    pass 6 6 (.request (requestFor 0 0x74 0) []) ++
    pass 6 6 (.request (requestFor 1 0x74 0) []) ++ pass 6 6 (.request [] []) ++
    .select {4} :: List.replicate 3 .skip

/-- A message on `t` comes in, and is stored for a subscription without SF. -/
theorem not_storesForSf_takenUpWithoutSf : ∃ es,
    ¬ Steps (Tracked.Next someSockets) StoresForSf (Tracked.start someSockets) es := by
  have hrun : (((Tracked.start someSockets).exec someSockets takenUpWithoutSf).bind fun t =>
      (t.visit someSockets (.datagram letterMsg 0 0 [])).map fun t' =>
        ((t.srv.queueOf [0x61]).length, (t'.srv.queueOf [0x61]).length,
          t.hist.subs [0x61] (letterMsg.topicStr []))) = some (0, 1, some false) := by
    decide +kernel
  obtain ⟨t, ht, hview⟩ := Option.bind_eq_some_iff.mp hrun
  obtain ⟨t', ht', hview⟩ := Option.map_eq_some_iff.mp hview
  simp only [Prod.mk.injEq] at hview
  obtain ⟨hbefore, hafter, hsub⟩ := hview
  refine ⟨_, not_steps (Tracked.run_of_exec ht) ht' fun hstores => ?_⟩
  have hgrown : ¬ t'.srv.queueOf [0x61] <+: t.srv.queueOf [0x61] := fun hprefix => by
    have := hprefix.length_le
    omega
  obtain ⟨_, _, _, _, hev, -, -, hact⟩ := hstores [0x61] hgrown
  cases hev
  cases hsub.symm.trans hact

end TemePCom.PubSub
