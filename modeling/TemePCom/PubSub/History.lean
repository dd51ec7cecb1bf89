/-
TemePCom/PubSub/History.lean

The server together with a history of what its clients have been told.

`subs id T` is the SF flag of the current subscription of `id` to `T`: set when
a SUBSCRIBE is answered `SUBSCRIBED`, cleared when an UNSUBSCRIBE is answered
`UNSUBSCRIBED`.  `expected id` are the messages that arrive for `id` while it is
disconnected, on the topics it is subscribed to with SF.  The history only
watches: it is computed from the events and the answers.
-/
import TemePCom.PubSub.Bookkeeping

namespace TemePCom.PubSub

open OrdMap Runs

/-- What has been answered to the clients, and what has come in for them. -/
structure History where
  subs : Bytes → Bytes → Option Bool
  expected : Bytes → List CliMsg

/-- A changed subscription. -/
def History.setSub (g : History) (id T : Bytes) (sub : Option Bool) : History :=
  { g with subs := fun id' T' => if id = id' ∧ T = T' then sub else g.subs id' T' }

/-- The history after an event and the answers to it. -/
def History.record (g : History) (s : Server) (sent : List Transmission) : Event → History
  | .datagram msg ip port beyond => { g with
      expected := fun id =>
        if id ∉ s.connected ∧ g.subs id (msg.topicStr beyond) = some true then
          g.expected id ++ [⟨msg, ip, port⟩]
        else g.expected id }
  -- what was expected is delivered now
  | .accept _ frame beyond =>
    if frame ≠ [] ∧ clientId frame beyond ∉ s.connected then
      { g with
        expected := fun id => if clientId frame beyond = id then [] else g.expected id }
    else g
  | .request frame beyond =>
    if ⟨s.i, .opcode .subscribed⟩ ∈ sent then
      g.setSub s.requester (requestTopic frame beyond) (some ((FromTcp.ofBytes frame).sf ≠ 0))
    else if ⟨s.i, .opcode .unsubscribed⟩ ∈ sent then
      g.setSub s.requester (requestTopic frame beyond) none
    else g
  | _ => g

/-! What is recorded of each answer. -/

section Record

variable {g : History} {s : Server} {sent : List Transmission} {newFd : ℕ} {frame beyond : Bytes}

theorem record_duplicate {c : Client} (h : s.connected[clientId frame beyond]? = some c) :
    g.record s sent (.accept newFd frame beyond) = g :=
  if_neg fun hnew => hnew.2 (mem_of_lookup h)

theorem record_welcomed (hframe : frame ≠ []) (h : s.connected[clientId frame beyond]? = none) :
    g.record s sent (.accept newFd frame beyond) = { g with
      expected := fun id => if clientId frame beyond = id then [] else g.expected id } :=
  if_pos ⟨hframe, not_mem_iff.mpr h⟩

theorem record_unanswered : g.record s [] (.request frame beyond) = g := by
  rw [History.record, if_neg List.not_mem_nil, if_neg List.not_mem_nil]

theorem record_subscribed : g.record s [⟨s.i, .opcode .subscribed⟩] (.request frame beyond) =
    g.setSub s.requester (requestTopic frame beyond) (some ((FromTcp.ofBytes frame).sf ≠ 0)) :=
  if_pos (List.mem_singleton_self _)

theorem record_unsubscribed : g.record s [⟨s.i, .opcode .unsubscribed⟩] (.request frame beyond) =
    g.setSub s.requester (requestTopic frame beyond) none := by
  rw [History.record, if_neg (by simp), if_pos (List.mem_singleton_self _)]

/-- An answer that refuses the request. -/
theorem record_refused {opcode : Opcode} (hsub : opcode ≠ .subscribed)
    (hunsub : opcode ≠ .unsubscribed) :
    g.record s [⟨s.i, .opcode opcode⟩] (.request frame beyond) = g := by
  rw [History.record, if_neg (by simp [hsub.symm]), if_neg (by simp [hunsub.symm])]

end Record

/-- The server and its history. -/
structure Tracked where
  srv : Server
  hist : History

def Tracked.start (k : Sockets) : Tracked where
  srv := Server.start k
  hist := ⟨fun _ _ => none, fun _ => []⟩

/-- A step of both. -/
def Tracked.visit (k : Sockets) (t : Tracked) (e : Event) : Option Tracked :=
  (t.srv.visit k e).map fun r => ⟨r.1, t.hist.record t.srv r.2 e⟩

def Tracked.Next (k : Sockets) (t : Tracked) (e : Event) (t' : Tracked) : Prop :=
  t.visit k e = some t'

/-- Run the server on a list of events and record its history. -/
def Tracked.exec (k : Sockets) : Tracked → List Event → Option Tracked := Runs.exec (·.visit k)

theorem Tracked.run_of_exec {k : Sockets} {t t' : Tracked} {es : List Event}
    (h : t.exec k es = some t') : Run (Tracked.Next k) t es t' :=
  Runs.run_of_exec (fun _ _ _ hstep => hstep) h

variable {k : Sockets} {t t' : Tracked} {e : Event} {s s' : Server}

theorem tracked_outcome (h : Tracked.Next k t e t') : Server.Next k t.srv e t'.srv ∧
    ∃ sent, Outcome k t.srv e t'.srv sent ∧ t'.hist = t.hist.record t.srv sent e := by
  obtain ⟨⟨s', sent⟩, hvisit, rfl⟩ := Option.map_eq_some_iff.mp h
  exact ⟨⟨sent, hvisit⟩, sent, outcome_of_visit hvisit, rfl⟩

/-- The history only watches: the runs of the server are those of the server and
its history. -/
theorem run_iff_tracked {es : List Event} : Run (Server.Next k) t.srv es s ↔
    ∃ g, Run (Tracked.Next k) t es ⟨s, g⟩ := by
  constructor
  · intro h
    generalize hsrv : t.srv = s₀ at h
    induction h generalizing t with
    | nil s₀ =>
      subst hsrv
      exact ⟨t.hist, .nil t⟩
    | cons hnext _ ih =>
      obtain ⟨sent, hvisit⟩ := hnext
      subst hsrv
      obtain ⟨g, hrun⟩ := ih (t := ⟨_, t.hist.record t.srv sent _⟩) rfl
      exact ⟨g, .cons (Option.map_eq_some_iff.mpr ⟨_, hvisit, rfl⟩) hrun⟩
  · rintro ⟨g, h⟩
    generalize ht' : (⟨s, g⟩ : Tracked) = t' at h
    induction h with
    | nil t =>
      subst ht'
      exact .nil s
    | cons hnext _ ih => exact .cons (tracked_outcome hnext).1 (ih ht')

/-- The client is subscribed to the topic with SF. -/
def Tracked.Active (t : Tracked) (id T : Bytes) : Prop := t.hist.subs id T = some true

instance (t : Tracked) (id T : Bytes) : Decidable (t.Active id T) :=
  inferInstanceAs (Decidable (_ = _))

/-! ### What the history says about the server -/

/-- The record of a client, connected or saved. -/
def Server.recordOf (s : Server) (id : Bytes) : Option Client := s.connected[id]?.or s.saved[id]?

/-- The subscriptions are the copies in the topics, SF subscriptions are in the SF
list of the client's record, and nothing is expected for the connected. -/
structure Faithful (t : Tracked) : Prop where
  subs_iff : ∀ id T, (t.hist.subs id T).isSome ↔ (copyOf t.srv.topics T id).isSome
  active_sf : ∀ id T, t.Active id T → ∃ c, t.srv.recordOf id = some c ∧ T ∈ c.sf
  expected_nil : ∀ id, id ∈ t.srv.connected → t.hist.expected id = []

theorem recordOf_of_connected {s : Server} {id : Bytes} {c : Client}
    (h : s.connected[id]? = some c) : s.recordOf id = some c := by
  rw [Server.recordOf, h, Option.some_or]

theorem recordOf_of_not_connected {s : Server} {id : Bytes} (h : s.connected[id]? = none) :
    s.recordOf id = s.saved[id]? := by
  rw [Server.recordOf, h, Option.none_or]

theorem faithful_start (k : Sockets) : Faithful (Tracked.start k) where
  subs_iff := by
    intro id T
    have hnone : copyOf (Server.start k).topics T id = none := by
      rw [copyOf, Server.start, lookup_empty, Option.bind_none]
    simp [Tracked.start, hnone]
  active_sf := fun _ _ h => nomatch h
  expected_nil := fun _ _ => rfl

section Step

variable {g : History}

/-- A step that the history does not notice, and that leaves the subscriptions
and the SF lists alone. -/
theorem Faithful.congr (h : Faithful ⟨s, g⟩)
    (hcopy : ∀ T id, copyOf s'.topics T id = copyOf s.topics T id)
    (hsf : ∀ id c, s.recordOf id = some c → ∃ c', s'.recordOf id = some c' ∧ c'.sf = c.sf)
    (hcon : ∀ id, id ∈ s'.connected → id ∈ s.connected) : Faithful ⟨s', g⟩ where
  subs_iff := by
    intro id T
    rw [hcopy]
    exact h.subs_iff id T
  active_sf := by
    intro id T hact
    obtain ⟨c, hc, hmem⟩ := h.active_sf id T hact
    obtain ⟨c', hc', hsf'⟩ := hsf id c hc
    exact ⟨c', hc', hsf' ▸ hmem⟩
  expected_nil := fun id hid => h.expected_nil id (hcon id hid)

/-- Messages are expected for the disconnected only. -/
theorem Faithful.expect {expected : Bytes → List CliMsg} (h : Faithful ⟨s, g⟩)
    (hexp : ∀ id, id ∈ s.connected → expected id = g.expected id) :
    Faithful ⟨s, { g with expected := expected }⟩ where
  subs_iff := h.subs_iff
  active_sf := h.active_sf
  expected_nil := fun id hid => (hexp id hid).trans (h.expected_nil id hid)

/-- Without a topic there is nobody to expect a message on it. -/
theorem Faithful.subs_none (h : Faithful ⟨s, g⟩) {T : Bytes} (htopic : s.topics[T]? = none)
    (id : Bytes) : g.subs id T = none := by
  have hiff := h.subs_iff id T
  have hcopy : copyOf s.topics T id = none := by rw [copyOf, htopic, Option.bind_none]
  rw [hcopy] at hiff
  simpa using hiff

theorem recordOf_publish {topicMap : ClientMap} {forClient : CliMsg} {T : Bytes}
    (hids : KeysAreIds topicMap) {id : Bytes} {c : Client} (h : s.recordOf id = some c) :
    ∃ c', Server.recordOf { s with
      saved := (sendNewMsg topicMap forClient s.connected s.saved T).2 }.next id = some c' ∧
      c'.sf = c.sf := by
  rcases hcon : s.connected[id]? with - | c₀
  · rw [recordOf_of_not_connected hcon] at h
    have hrec : Server.recordOf { s with
        saved := (sendNewMsg topicMap forClient s.connected s.saved T).2 }.next id =
        (sendNewMsg topicMap forClient s.connected s.saved T).2[id]? :=
      recordOf_of_not_connected hcon
    rw [hrec, sendNewMsg_saved hids, h]
    split_ifs
    · exact ⟨c.stored forClient T, rfl, Client.sf_stored ..⟩
    · exact ⟨c, rfl, rfl⟩
  · rw [recordOf_of_connected hcon] at h
    exact ⟨c₀, recordOf_of_connected hcon, congrArg Client.sf (Option.some.inj h)⟩

theorem Faithful.publish {topicMap : ClientMap} {forClient : CliMsg} {T : Bytes}
    (h : Faithful ⟨s, g⟩) (hids : KeysAreIds topicMap) : Faithful ⟨{ s with
      saved := (sendNewMsg topicMap forClient s.connected s.saved T).2 }.next, g⟩ :=
  h.congr (fun _ _ => rfl) (fun _ _ hc => recordOf_publish hids hc) fun _ hid => hid

theorem recordOf_welcome {newFd : ℕ} {id id' : Bytes} {c : Client}
    (hnew : s.connected[id]? = none) (h : s.recordOf id' = some c) :
    ∃ c', (s.welcome newFd id).1.next.recordOf id' = some c' ∧ c'.sf = c.sf := by
  rw [Server.recordOf, connected_welcome, saved_welcome]
  by_cases hid : id = id'
  · subst hid
    rw [recordOf_of_not_connected hnew] at h
    rw [lookup_insertIfNew_self hnew, Option.some_or]
    refine ⟨admitted s.saved newFd id, rfl, ?_⟩
    simp only [admitted, h]
    rfl
  · refine ⟨c, ?_, rfl⟩
    rw [lookup_insertIfNew_of_ne hid, lookup_erase_of_ne hid, ← h, Server.recordOf]

theorem Faithful.welcome {newFd : ℕ} {id : Bytes} (h : Faithful ⟨s, g⟩)
    (hnew : s.connected[id]? = none) : Faithful ⟨(s.welcome newFd id).1.next,
      { g with expected := fun id' => if id = id' then [] else g.expected id' }⟩ := by
  have htopics : (s.welcome newFd id).1.next.topics = s.topics := topics_welcome s newFd id
  refine ⟨?_, ?_, ?_⟩
  · intro id' T
    rw [htopics]
    exact h.subs_iff id' T
  · intro id' T hact
    obtain ⟨c, hc, hmem⟩ := h.active_sf id' T hact
    obtain ⟨c', hc', hsf⟩ := recordOf_welcome hnew hc
    exact ⟨c', hc', hsf ▸ hmem⟩
  · intro id' hid'
    show (if id = id' then [] else g.expected id') = []
    split_ifs with hid
    · rfl
    · obtain ⟨c, hc⟩ := mem_iff.mp hid'
      rcases (socketOf_welcome hnew).mp (socketOf_eq hc) with ⟨heq, -⟩ | hold
      · exact absurd heq hid
      · obtain ⟨c₀, hc₀, -⟩ := exists_of_socketOf hold
        exact h.expected_nil id' (mem_of_lookup hc₀)

theorem Faithful.disconnect {c : Client} {id : Bytes} {readFds openFds : Finset ℕ}
    (h : Faithful ⟨s, g⟩) (hrec : Records s) (hcon : s.connected[id]? = some c) :
    Faithful ⟨{ s with
      connected := s.connected.erase id
      saved := if c.sf = [] then s.saved else s.saved.insertIfNew id c
      readFds := readFds
      openFds := openFds }.next, g⟩ := by
  have hnone : s.saved[id]? = none :=
    (hrec.disjoint id).resolve_left (by rw [hcon]; simp)
  refine ⟨h.subs_iff, ?_, ?_⟩
  · intro id' T hact
    obtain ⟨c', hc', hmem⟩ := h.active_sf id' T hact
    by_cases hid : id = id'
    · -- an SF topic in its list: the client is saved
      subst hid
      rw [recordOf_of_connected hcon] at hc'
      obtain rfl := Option.some.inj hc'
      have hsf : c.sf ≠ [] := List.ne_nil_of_mem hmem
      refine ⟨c, ?_, hmem⟩
      rw [recordOf_of_not_connected (show (s.connected.erase id)[id]? = none from
        lookup_erase_self)]
      show (if c.sf = [] then s.saved else s.saved.insertIfNew id c)[id]? = some c
      rw [if_neg hsf]
      exact lookup_insertIfNew_self hnone
    · refine ⟨c', ?_, hmem⟩
      rw [← hc', Server.recordOf, Server.recordOf]
      show ((s.connected.erase id)[id']?).or
        ((if c.sf = [] then s.saved else s.saved.insertIfNew id c)[id']?) = _
      rw [lookup_erase_of_ne hid]
      split_ifs
      · rfl
      · rw [lookup_insertIfNew_of_ne hid]
  · intro id' hid'
    obtain ⟨c', hc'⟩ := mem_iff.mp hid'
    exact h.expected_nil id' (mem_of_lookup (lookup_of_erase hc').2)

theorem Faithful.unsubscribe {T id : Bytes} (h : Faithful ⟨s, g⟩) : Faithful ⟨{ s with
      topics := s.topics.modify T (·.erase id) }.next, g.setSub id T none⟩ := by
  refine ⟨?_, ?_, h.expected_nil⟩
  · intro id' T'
    show (if id = id' ∧ T = T' then none else g.subs id' T').isSome ↔
      (copyOf (s.topics.modify T (·.erase id)) T' id').isSome
    rw [copyOf_erase]
    by_cases hid : id = id' ∧ T = T'
    · rw [if_pos hid, if_pos hid.symm, Option.isSome_none, Option.isSome_none]
    · rw [if_neg hid, if_neg fun hc => hid hc.symm]
      exact h.subs_iff id' T'
  · intro id' T' hact
    have hact : (if id = id' ∧ T = T' then none else g.subs id' T') = some true := hact
    split_ifs at hact
    exact h.active_sf id' T' hact

theorem Faithful.subscribe {c : Client} {T id : Bytes} {sf : UInt8} (h : Faithful ⟨s, g⟩)
    (hcopy : copyOf s.topics T id = none) (hcon : s.connected[id]? = some c) :
    Faithful ⟨{ s with
      topics := (withTopic s.topics T).modify T (·.insertIfNew id c)
      connected := if sf ≠ 0 then s.connected.modify id (·.addSf T) else s.connected }.next,
      g.setSub id T (some (sf ≠ 0))⟩ := by
  set s' : Server := { s with
    topics := (withTopic s.topics T).modify T (·.insertIfNew id c)
    connected := if sf ≠ 0 then s.connected.modify id (·.addSf T) else s.connected }.next
    with hs'
  have hconnected : ∀ id', s'.connected[id']? =
      s.connected[id']?.map fun c => if sf ≠ 0 ∧ id = id' then c.addSf T else c :=
    fun _ => lookup_subscribe
  have hself : s'.recordOf id = some (if sf ≠ 0 then c.addSf T else c) := by
    refine recordOf_of_connected ?_
    simp only [hconnected, hcon, Option.map_some, and_true]
  have hother : ∀ id', id ≠ id' → s'.connected[id']? = s.connected[id']? := by
    intro id' hid
    simp only [hconnected, hid, and_false, if_false, Option.map_id']
  refine ⟨?_, ?_, ?_⟩
  · intro id' T'
    show (if id = id' ∧ T = T' then some _ else g.subs id' T').isSome ↔
      (copyOf ((withTopic s.topics T).modify T (·.insertIfNew id c)) T' id').isSome
    rw [copyOf_subscribe hcopy]
    by_cases hid : id = id' ∧ T = T'
    · rw [if_pos hid, if_pos hid.symm]
      simp
    · rw [if_neg hid, if_neg fun hc => hid hc.symm]
      exact h.subs_iff id' T'
  · -- a subscription with SF is added to the list, the others are still there
    intro id' T' hact
    have hact : (if id = id' ∧ T = T' then some (decide (sf ≠ 0)) else g.subs id' T') =
      some true := hact
    by_cases hid : id = id'
    · subst hid
      refine ⟨_, hself, ?_⟩
      split_ifs at hact with hT
      · have hsf : sf ≠ 0 := by simpa using hact
        rw [if_pos hsf, ← hT.2]
        exact List.mem_append_right _ (List.mem_singleton_self _)
      · obtain ⟨c', hc', hmem⟩ := h.active_sf id T' hact
        rw [recordOf_of_connected hcon] at hc'
        obtain rfl := Option.some.inj hc'
        split_ifs
        · exact List.mem_append_left _ hmem
        · exact hmem
    · rw [if_neg fun hc => hid hc.1] at hact
      obtain ⟨c', hc', hmem⟩ := h.active_sf id' T' hact
      refine ⟨c', ?_, hmem⟩
      rw [← hc', Server.recordOf, Server.recordOf, hother id' hid]
      rfl
  · intro id' hid'
    refine h.expected_nil id' ?_
    by_cases hid : id = id'
    · exact hid ▸ mem_of_lookup hcon
    · obtain ⟨c', hc'⟩ := mem_iff.mp hid'
      exact mem_of_lookup ((hother id' hid).symm.trans hc')

theorem faithful_step (hinv : Descriptors k t.srv ∧ Records t.srv) (h : Faithful t)
    (hnext : Tracked.Next k t e t') : Faithful t' := by
  obtain ⟨-, sent, ho, hhist⟩ := tracked_outcome hnext
  obtain ⟨s, g⟩ := t
  obtain ⟨s', g'⟩ := t'
  simp only at ho hhist hinv
  subst hhist
  cases ho with
  | select | skip =>
    exact h.congr (fun _ _ => rfl) (fun _ c hc => ⟨c, hc, rfl⟩) fun _ hid => hid
  | newTopic hnone =>
    refine Faithful.expect (h.congr (fun _ _ => copyOf_newTopic)
      (fun _ c hc => ⟨c, hc, rfl⟩) fun _ hid => hid) fun id hid => ?_
    exact if_neg fun hc => hc.1 hid
  | published htopic =>
    have hids : KeysAreIds _ := fun id c hc =>
      hinv.2.copy_id _ id c ((copyOf_eq htopic).trans hc)
    refine Faithful.expect (h.publish hids) fun id hid => ?_
    exact if_neg fun hc => hc.1 hid
  | leaked =>
    exact h.congr (fun _ _ => rfl) (fun _ c hc => ⟨c, hc, rfl⟩) fun _ hid => hid
  | duplicate hcon =>
    rw [record_duplicate hcon]
    exact h.congr (fun _ _ => rfl) (fun _ c hc => ⟨c, hc, rfl⟩) fun _ hid => hid
  | welcomed hframe hfd hnew =>
    rw [record_welcomed hframe hnew]
    exact h.welcome hnew
  | disconnected hvisit hcon =>
    rw [record_unanswered]
    exact h.disconnect hinv.2 hcon
  | unsubscribed _ _ _ =>
    rw [record_unsubscribed]
    exact h.unsubscribe
  | noTopic _ _ =>
    rw [record_refused (by decide) (by decide)]
    exact h.congr (fun _ _ => rfl) (fun _ c hc => ⟨c, hc, rfl⟩) fun _ hid => hid
  | alreadySub _ _ _ =>
    rw [record_refused (by decide) (by decide)]
    exact h.congr (fun _ _ => copyOf_withTopic) (fun _ c hc => ⟨c, hc, rfl⟩) fun _ hid => hid
  | subscribed _ _ hcopy hcon =>
    rw [record_subscribed]
    exact h.subscribe hcopy hcon
  | unknown _ _ =>
    rw [record_unanswered]
    exact h.congr (fun _ _ => rfl) (fun _ c hc => ⟨c, hc, rfl⟩) fun _ hid => hid

end Step

end TemePCom.PubSub
