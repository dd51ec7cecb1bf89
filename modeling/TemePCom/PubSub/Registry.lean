/-
TemePCom/PubSub/Registry.lean

What the server is for, apart from the messages: a registry of who is connected on
which descriptor, which topics there are, and who is subscribed to what, that answers
the requests it is asked.

The registry knows nothing of records, copies, SF lists or passes of a loop.  The maps
of the server are seen as one through `Server.registry`, and `registry_refines` says that
every run of the main loop is a run of the registry with the same answers on the same
descriptors.
-/
import TemePCom.PubSub.Bookkeeping
import TemePCom.PubSub.Decoding

namespace TemePCom.PubSub

open OrdMap Runs
open Std (ExtTreeMap)

/-! ### The registry -/

/-- Who is at a descriptor, the topics, and who is subscribed to which of them. -/
structure Registry where
  owner : ℕ → Option Bytes
  topics : Set Bytes
  subs : Set (Bytes × Bytes)

/-- What a registry is asked. -/
inductive Action
  | idle
  | publish (topic : Bytes)
  | arrive (fd : ℕ) (id : Bytes)
  | leave (fd : ℕ)
  | subscribe (fd : ℕ) (topic : Bytes)
  | unsubscribe (fd : ℕ) (topic : Bytes)

/-- The registry at the beginning. -/
def Registry.start : Registry := ⟨fun _ => none, ∅, ∅⟩

open Classical in
/-- What becomes of the registry, and its answers. -/
noncomputable def Registry.act (r : Registry) : Action → Registry × List (ℕ × Opcode)
  | .idle => (r, [])
  | .publish topic => ({ r with topics := insert topic r.topics }, [])
  -- an id is let in once
  | .arrive fd id =>
    if ∃ fd', r.owner fd' = some id then (r, [(fd, .exit)])
    else ({ r with owner := Function.update r.owner fd (some id) }, [])
  -- the subscriptions stay
  | .leave fd => ({ r with owner := Function.update r.owner fd none }, [])
  | .subscribe fd topic =>
    match r.owner fd with
    | none => (r, [])
    | some id =>
      if (id, topic) ∈ r.subs then (r, [(fd, .alreadySub)])
      else ({ r with
        topics := insert topic r.topics
        subs := insert (id, topic) r.subs }, [(fd, .subscribed)])
  | .unsubscribe fd topic =>
    match r.owner fd with
    | none => (r, [])
    | some id =>
      if topic ∈ r.topics then
        ({ r with subs := r.subs \ {(id, topic)} }, [(fd, .unsubscribed)])
      else (r, [(fd, .noTopic)])

/-- The registry is asked something and answers it. -/
def Registry.Next (r : Registry) (asked : Action × List (ℕ × Opcode)) (r' : Registry) : Prop :=
  r.act asked.1 = (r', asked.2)

/-! ### The server as a registry -/

/-- The id of the client at a descriptor, if there is one. -/
def ownerOf (connected : ClientMap) (fd : ℕ) : Option Bytes :=
  (connected.toList.find? fun elem => elem.2.clientSocket = fd).map Prod.fst

/-- The registry that the maps of the server amount to. -/
def Server.registry (s : Server) : Registry where
  owner := ownerOf s.connected
  topics := {T | T ∈ s.topics}
  subs := {p | (copyOf s.topics p.2 p.1).isSome}

/-- One visit: the descriptor, what is there, and what is transmitted. -/
structure Visit where
  fd : ℕ
  event : Event
  sent : List Transmission

/-- The server makes a visit. -/
def Server.Visits (k : Sockets) (s : Server) (v : Visit) (s' : Server) : Prop :=
  s.i = v.fd ∧ s.visit k v.event = some (s', v.sent)

/-- What a frame from a client asks of the registry. -/
def requestAction (fd : ℕ) (frame beyond : Bytes) : Action :=
  if frame = [] then .leave fd
  else if (FromTcp.ofBytes frame).type = unsubscribeType then
    .unsubscribe fd (requestTopic frame beyond)
  else if (FromTcp.ofBytes frame).type = subscribeType then
    .subscribe fd (requestTopic frame beyond)
  else .idle

/-- What a visit asks of the registry. -/
def Visit.action (v : Visit) : Action :=
  match v.event with
  | .select _ => .idle
  | .skip => .idle
  | .datagram msg _ _ beyond => .publish (msg.topicStr beyond)
  | .accept newFd frame beyond =>
    if frame = [] then .idle else .arrive newFd (clientId frame beyond)
  | .request frame beyond => requestAction v.fd frame beyond

/-- The answers among the transmissions. -/
def answersOf (sent : List Transmission) : List (ℕ × Opcode) :=
  sent.filterMap fun t => match t.content with
    | .opcode code => some (t.fd, code)
    | .msg _ => none

variable {k : Sockets} {s s' : Server} {e : Event} {sent : List Transmission}

/-! ### The view -/

theorem answersOf_msgs {l : List Transmission} (h : ∀ t ∈ l, ∃ m, t.content = .msg m) :
    answersOf l = [] := by
  refine List.filterMap_eq_nil_iff.mpr fun t ht => ?_
  obtain ⟨m, hm⟩ := h t ht
  rw [hm]

theorem mem_subs {id T : Bytes} :
    (id, T) ∈ s.registry.subs ↔ (copyOf s.topics T id).isSome := Iff.rfl

/-- The owner of a descriptor is the client that is connected with it. -/
theorem ownerOf_eq_some_iff (h : Descriptors k s) {fd : ℕ} {id : Bytes} :
    ownerOf s.connected fd = some id ↔ s.socketOf id = some fd := by
  constructor
  · intro howner
    obtain ⟨⟨key, c⟩, hfind, rfl⟩ := Option.map_eq_some_iff.mp howner
    obtain ⟨hc, hfd⟩ := lookup_of_find hfind
    exact (socketOf_eq hc).trans (congrArg some (by simpa using hfd))
  · intro hsock
    obtain ⟨c, hc, hfd⟩ := exists_of_socketOf hsock
    rcases hfind : s.connected.toList.find? (fun elem => elem.2.clientSocket = fd) with
      - | ⟨key, c'⟩
    · rw [List.find?_eq_none] at hfind
      exact absurd hfd (by simpa using hfind (id, c) (mem_toList.mpr hc))
    · -- whoever is found has the descriptor, and it is one client's
      obtain ⟨hc', hfd'⟩ := lookup_of_find hfind
      have hsock' : s.socketOf key = some fd :=
        (socketOf_eq hc').trans (congrArg some (by simpa using hfd'))
      rw [ownerOf, hfind, h.inj key id fd hsock' hsock]
      rfl

/-- A client is at one descriptor. -/
theorem eq_of_owner (h : Descriptors k s) {fd fd' : ℕ} {id : Bytes}
    (hfd : s.registry.owner fd = some id) (hfd' : s.registry.owner fd' = some id) : fd = fd' :=
  Option.some.inj (((ownerOf_eq_some_iff h).mp hfd).symm.trans ((ownerOf_eq_some_iff h).mp hfd'))

/-- The descriptors' owners change as the clients' descriptors do. -/
theorem owner_congr (h : Descriptors k s) (h' : Descriptors k s')
    (hsock : ∀ id fd, s'.socketOf id = some fd ↔ s.socketOf id = some fd) :
    ownerOf s'.connected = ownerOf s.connected := by
  funext fd
  apply Option.ext
  intro id
  rw [ownerOf_eq_some_iff h', ownerOf_eq_some_iff h]
  exact hsock id fd

/-- The requester of a visit is the owner of the descriptor. -/
theorem owner_requester (h : Descriptors k s) (hvisit : s.Visiting k) :
    s.registry.owner s.i = some s.requester := by
  obtain ⟨c, hc, hfd⟩ := requester_spec h hvisit
  exact (ownerOf_eq_some_iff h).mpr (hfd ▸ socketOf_eq hc)

/-- Two registries are the same if they agree on everything. -/
theorem registry_ext {r : Registry} (howner : ownerOf s.connected = r.owner)
    (htopics : ∀ T, T ∈ s.topics ↔ T ∈ r.topics)
    (hsubs : ∀ id T, (copyOf s.topics T id).isSome ↔ (id, T) ∈ r.subs) : s.registry = r := by
  obtain ⟨owner, topics, subs⟩ := r
  simp only [Server.registry, Registry.mk.injEq]
  exact ⟨howner, Set.ext htopics, Set.ext fun p => hsubs p.1 p.2⟩

/-! ### The topics -/

section Topics

variable {topics : Topics} {T T' : Bytes}

theorem mem_newTopic : T' ∈ newTopic topics T ↔ T' = T ∨ T' ∈ topics := by
  rw [newTopic, ExtTreeMap.mem_insertIfNew, Std.compare_eq_iff_eq, eq_comm]

theorem mem_modify {f : ClientMap → ClientMap} : T' ∈ topics.modify T f ↔ T' ∈ topics :=
  ExtTreeMap.mem_modify

theorem mem_withTopic : T' ∈ withTopic topics T ↔ T' = T ∨ T' ∈ topics := by
  unfold withTopic
  split_ifs with h
  · refine ⟨Or.inr, ?_⟩
    rintro (rfl | h')
    · exact h
    · exact h'
  · exact mem_newTopic

/-- A copy lies in a topic that there is. -/
theorem mem_topics_of_copy {id : Bytes} {c : Client} (h : copyOf topics T id = some c) :
    T ∈ topics := by
  obtain ⟨topicMap, htopic, -⟩ := exists_topic h
  exact mem_of_lookup htopic

/-! Who is subscribed, after each of the changes. -/

variable {id id' : Bytes} {c : Client}

theorem isSome_copyOf_newTopic :
    (copyOf (newTopic topics T) T' id').isSome ↔ (copyOf topics T' id').isSome := by
  rw [copyOf_newTopic]

theorem isSome_copyOf_erase : (copyOf (topics.modify T (·.erase id)) T' id').isSome ↔
    (copyOf topics T' id').isSome ∧ (id', T') ≠ (id, T) := by
  rw [copyOf_erase, Ne, Prod.mk.injEq]
  split_ifs with heq
  · simp [heq.1, heq.2]
  · refine (and_iff_left ?_).symm
    rintro ⟨rfl, rfl⟩
    exact heq ⟨rfl, rfl⟩

theorem isSome_copyOf_subscribe (h : copyOf topics T id = none) :
    (copyOf ((withTopic topics T).modify T (·.insertIfNew id c)) T' id').isSome ↔
      (id', T') = (id, T) ∨ (copyOf topics T' id').isSome := by
  rw [copyOf_subscribe h, Prod.mk.injEq]
  split_ifs with heq
  · simp [heq.1, heq.2]
  · refine (or_iff_right ?_).symm
    rintro ⟨rfl, rfl⟩
    exact heq ⟨rfl, rfl⟩

end Topics

/-- There are subscriptions to topics only. -/
theorem topics_of_subs {id T : Bytes} (h : (id, T) ∈ s.registry.subs) : T ∈ s.registry.topics := by
  obtain ⟨c, hcopy⟩ := Option.isSome_iff_exists.mp (mem_subs.mp h)
  exact mem_topics_of_copy hcopy

/-! ### The visits -/

/-- A visit at which nobody comes or goes, and no topic or subscription is changed. -/
theorem registry_congr (h : Descriptors k s) (h' : Descriptors k s')
    (hsock : ∀ id, s'.socketOf id = s.socketOf id) (htopics : s'.topics = s.topics) :
    s'.registry = s.registry := by
  refine registry_ext (owner_congr h h' fun id fd => by rw [hsock]) (fun T => ?_)
    fun id T => ?_
  · rw [htopics]
    rfl
  · rw [htopics]
    rfl

/-- An id is at some descriptor iff it is connected. -/
theorem exists_owner_iff (h : Descriptors k s) {id : Bytes} :
    (∃ fd, s.registry.owner fd = some id) ↔ ∃ c, s.connected[id]? = some c := by
  constructor
  · rintro ⟨fd, hfd⟩
    obtain ⟨c, hc, -⟩ := exists_of_socketOf ((ownerOf_eq_some_iff h).mp hfd)
    exact ⟨c, hc⟩
  · rintro ⟨c, hc⟩
    exact ⟨c.clientSocket, (ownerOf_eq_some_iff h).mpr (socketOf_eq hc)⟩

theorem registry_welcome {newFd : ℕ} {id : Bytes} (h : Descriptors k s)
    (h' : Descriptors k (s.welcome newFd id).1.next) (hfd : newFd ∉ s.openFds)
    (hnew : s.connected[id]? = none) : (s.welcome newFd id).1.next.registry =
      { s.registry with owner := Function.update s.registry.owner newFd (some id) } := by
  refine registry_ext ?_ (fun T => ?_) fun id' T => ?_
  · funext fd
    apply Option.ext
    intro id'
    rw [ownerOf_eq_some_iff h', socketOf_welcome hnew]
    show _ ↔ Function.update s.registry.owner newFd (some id) fd = some id'
    by_cases heq : fd = newFd
    · -- the new descriptor was nobody's
      subst heq
      have hfresh : s.socketOf id' ≠ some fd := fun hsock =>
        hfd (h.isOpen (h.watched id' fd hsock).1)
      rw [Function.update_self, Option.some.injEq]
      exact ⟨fun hor => (hor.resolve_right hfresh).1, fun hid => Or.inl ⟨hid, rfl⟩⟩
    · rw [Function.update_of_ne heq]
      exact (or_iff_right fun hand => heq hand.2.symm).trans (ownerOf_eq_some_iff h).symm
  · rw [topics_welcome]
    rfl
  · rw [topics_welcome]
    rfl

theorem registry_disconnect (h : Descriptors k s) (h' : Descriptors k s')
    (hvisit : s.Visiting k) (hcon : s'.connected = s.connected.erase s.requester)
    (htopics : s'.topics = s.topics) : s'.registry =
      { s.registry with owner := Function.update s.registry.owner s.i none } := by
  refine registry_ext ?_ (fun T => ?_) fun id' T => ?_
  · funext fd
    apply Option.ext
    intro id'
    rw [ownerOf_eq_some_iff h', socketOf_disconnect h hvisit hcon]
    show _ ↔ Function.update s.registry.owner s.i none fd = some id'
    by_cases heq : fd = s.i
    · subst heq
      simp
    · rw [Function.update_of_ne heq]
      exact (and_iff_left heq).trans (ownerOf_eq_some_iff h).symm
  · rw [htopics]
    rfl
  · rw [htopics]
    rfl

section Changes

variable {T id : Bytes} {c : Client}

theorem registry_newTopic (h : Descriptors k s) (h' : Descriptors k s')
    (hsock : ∀ id, s'.socketOf id = s.socketOf id) (hs' : s'.topics = newTopic s.topics T) :
    s'.registry = { s.registry with topics := insert T s.registry.topics } := by
  refine registry_ext (owner_congr h h' fun id fd => by rw [hsock]) ?_ ?_
  · rw [hs']
    exact fun _ => mem_newTopic
  · rw [hs']
    exact fun _ _ => isSome_copyOf_newTopic

theorem registry_unsubscribe (h : Descriptors k s) (h' : Descriptors k s')
    (hsock : ∀ id, s'.socketOf id = s.socketOf id)
    (hs' : s'.topics = s.topics.modify T (·.erase id)) :
    s'.registry = { s.registry with subs := s.registry.subs \ {(id, T)} } := by
  refine registry_ext (owner_congr h h' fun id fd => by rw [hsock]) ?_ ?_
  · rw [hs']
    exact fun _ => mem_modify
  · rw [hs']
    exact fun _ _ => isSome_copyOf_erase

theorem registry_subscribe (h : Descriptors k s) (h' : Descriptors k s')
    (hsock : ∀ id, s'.socketOf id = s.socketOf id) (hcopy : copyOf s.topics T id = none)
    (hs' : s'.topics = (withTopic s.topics T).modify T (·.insertIfNew id c)) :
    s'.registry = { s.registry with
      topics := insert T s.registry.topics
      subs := insert (id, T) s.registry.subs } := by
  refine registry_ext (owner_congr h h' fun id fd => by rw [hsock]) ?_ ?_
  · rw [hs']
    exact fun _ => mem_modify.trans mem_withTopic
  · rw [hs']
    exact fun _ _ => isSome_copyOf_subscribe hcopy

end Changes

section Requests

variable {frame beyond : Bytes}

theorem requestAction_unsubscribe {fd : ℕ} (hframe : frame ≠ [])
    (htype : (FromTcp.ofBytes frame).type = unsubscribeType) :
    requestAction fd frame beyond = .unsubscribe fd (requestTopic frame beyond) := by
  rw [requestAction, if_neg hframe, if_pos htype]

theorem requestAction_subscribe {fd : ℕ} (hframe : frame ≠ [])
    (htype : (FromTcp.ofBytes frame).type = subscribeType) :
    requestAction fd frame beyond = .subscribe fd (requestTopic frame beyond) := by
  rw [requestAction, if_neg hframe, if_neg (by rw [htype]; decide), if_pos htype]

theorem requestAction_unknown {fd : ℕ} (hframe : frame ≠ [])
    (htype : (FromTcp.ofBytes frame).type ≠ unsubscribeType ∧
      (FromTcp.ofBytes frame).type ≠ subscribeType) :
    requestAction fd frame beyond = .idle := by
  rw [requestAction, if_neg hframe, if_neg htype.1, if_neg htype.2]

end Requests

/-- `NO_TOPIC` is the answer for a topic that there is not. -/
theorem not_mem_of_noTopic {frame beyond : Bytes} (hframe : frame ≠ [])
    (htype : (FromTcp.ofBytes frame).type = unsubscribeType)
    (hv : s.visit k (.request frame beyond) = some (s', [⟨s.i, .opcode .noTopic⟩])) :
    requestTopic frame beyond ∉ s.topics := by
  intro htopic
  obtain ⟨-, h⟩ := Server.visit_eq_some.mp hv
  simp only [Server.step, Server.onRequest, if_neg hframe, msgFromClient, htype, if_true,
    unsubscribe, htopic] at h
  split_ifs at h
  · cases h
  · cases h

/-- A client that is told to exit has sent an id. -/
theorem ne_nil_of_refused {newFd : ℕ} {frame beyond : Bytes}
    (hv : s.visit k (.accept newFd frame beyond) = some (s', [⟨newFd, .opcode .exit⟩])) :
    frame ≠ [] := by
  rintro rfl
  obtain ⟨-, h⟩ := Server.visit_eq_some.mp hv
  cases h

/-- **One visit** is one step of the registry. -/
theorem act_of_visit (h : Descriptors k s) (hv : s.visit k e = some (s', sent)) :
    s.registry.act (Visit.action ⟨s.i, e, sent⟩) = (s'.registry, answersOf sent) := by
  have ho := outcome_of_visit hv
  have h' := descriptors_step h ho
  -- whose request it is
  have howner : ∀ {frame beyond}, e = .request frame beyond →
      s.registry.owner s.i = some s.requester := by
    rintro frame beyond rfl
    obtain ⟨hen, -⟩ := Server.visit_eq_some.mp hv
    exact owner_requester h ⟨hen.2.1, hen.2.2.1, hen.2.2.2⟩
  cases ho with
  | select _ => exact congrArg (·, []) (registry_congr h h' (fun _ => rfl) rfl).symm
  | skip => exact congrArg (·, []) (registry_congr h h' (fun _ => rfl) rfl).symm
  | newTopic hnone =>
    exact congrArg (·, []) (registry_newTopic h h' (fun _ => rfl) rfl).symm
  | @published msg ip port beyond topicMap htopic =>
    have hanswers : answersOf (sendNewMsg topicMap ⟨msg, ip, port⟩ s.connected s.saved
        (msg.topicStr beyond)).1 = [] :=
      answersOf_msgs fun t ht => ⟨_, sendNewMsgLoop_content _ _ _ _ _ t ht⟩
    -- the topic is there already
    have hmem : insert (msg.topicStr beyond) s.registry.topics = s.registry.topics :=
      Set.insert_eq_of_mem (mem_of_lookup htopic)
    simp only [Visit.action, Registry.act, hmem, hanswers]
    exact congrArg (·, []) (registry_congr h h' (fun _ => rfl) rfl).symm
  | leaked => exact congrArg (·, []) (registry_congr h h' (fun _ => rfl) rfl).symm
  | @duplicate newFd frame beyond c hcon =>
    have hframe := ne_nil_of_refused hv
    rw [registry_congr h h' (fun _ => rfl) rfl]
    simp only [Visit.action, if_neg hframe, Registry.act]
    rw [if_pos ((exists_owner_iff h).mpr ⟨c, hcon⟩)]
    rfl
  | @welcomed newFd frame beyond hframe hfd hnew =>
    have hanswers : answersOf (s.welcome newFd (clientId frame beyond)).2 = [] := by
      rw [welcome_eq]
      refine answersOf_msgs fun t ht => ?_
      obtain ⟨m, -, rfl⟩ := List.mem_map.mp ht
      exact ⟨m, rfl⟩
    rw [registry_welcome h h' hfd hnew, hanswers]
    simp only [Visit.action, if_neg hframe, Registry.act]
    rw [if_neg]
    rw [exists_owner_iff h, hnew]
    simp
  | @disconnected beyond c hvisit hcon =>
    rw [registry_disconnect h h' hvisit rfl rfl]
    rfl
  | @unsubscribed frame beyond hframe htype htopic =>
    have hmem : requestTopic frame beyond ∈ s.registry.topics := htopic
    simp only [Visit.action, requestAction_unsubscribe hframe htype, Registry.act, howner rfl,
      if_pos hmem]
    exact congrArg (·, _) (registry_unsubscribe h h' (fun _ => rfl) rfl).symm
  | @noTopic frame beyond hframe htype =>
    have hmem : requestTopic frame beyond ∉ s.registry.topics := not_mem_of_noTopic hframe htype hv
    simp only [Visit.action, requestAction_unsubscribe hframe htype, Registry.act, howner rfl,
      if_neg hmem]
    exact congrArg (·, _) (registry_congr h h' (fun _ => rfl) rfl).symm
  | @alreadySub frame beyond c hframe htype hcopy =>
    have hsub : (s.requester, requestTopic frame beyond) ∈ s.registry.subs :=
      mem_subs.mpr (by rw [hcopy, Option.isSome_some])
    have htopics : withTopic s.topics (requestTopic frame beyond) = s.topics :=
      if_pos (mem_topics_of_copy hcopy)
    simp only [Visit.action, requestAction_subscribe hframe htype, Registry.act, howner rfl,
      if_pos hsub]
    exact congrArg (·, _) (registry_congr h h' (fun _ => rfl) htopics).symm
  | @subscribed frame beyond c hframe htype hcopy hcon =>
    have hsub : (s.requester, requestTopic frame beyond) ∉ s.registry.subs := by
      rw [mem_subs, hcopy]
      exact Bool.false_ne_true
    simp only [Visit.action, requestAction_subscribe hframe htype, Registry.act, howner rfl,
      if_neg hsub]
    exact congrArg (·, _) (registry_subscribe h h' (fun _ => socketOf_subscribe) hcopy rfl).symm
  | @unknown frame beyond hframe htype =>
    simp only [Visit.action, requestAction_unknown hframe htype, Registry.act]
    exact congrArg (·, _) (registry_congr h h' (fun _ => rfl) rfl).symm

/-! ### Runs -/

theorem registry_start (k : Sockets) : (Server.start k).registry = Registry.start := by
  refine registry_ext ?_ (fun T => ?_) fun id T => ?_
  · funext fd
    simp [Server.start, ownerOf, Registry.start]
  · simp [Server.start, Registry.start]
  · have hnone : copyOf (Server.start k).topics T id = none := by
      rw [copyOf, Server.start, lookup_empty, Option.bind_none]
    rw [hnone]
    exact Iff.of_eq (by simp [Registry.start])

/-- **The server is the registry**: whatever comes in, in whatever order, a run of the main
loop is a run of the registry.  At every visit the registry is asked what is there, and its
answers are transmitted, each on its descriptor, and no others. -/
theorem registry_refines (k : Sockets) {vs : List Visit} {s : Server}
    (h : Run (Server.Visits k) (Server.start k) vs s) :
    Run Registry.Next Registry.start (vs.map fun v => (v.action, answersOf v.sent)) s.registry := by
  rw [← registry_start k]
  have hstep : ∀ s v s', Descriptors k s → Server.Visits k s v s' → Descriptors k s' ∧
      Registry.Next s.registry (v.action, answersOf v.sent) s'.registry := by
    rintro s ⟨fd, e, sent⟩ s' hdesc ⟨rfl, hv⟩
    exact ⟨descriptors_step hdesc (outcome_of_visit hv), act_of_visit hdesc hv⟩
  exact h.map (Descriptors k) hstep (descriptors_start k)

/-- The steps of the main loop are its visits. -/
theorem exists_visits {es : List Event} (h : Run (Server.Next k) s es s') :
    ∃ vs, vs.map Visit.event = es ∧ Run (Server.Visits k) s vs s' := by
  induction h with
  | nil s => exact ⟨[], rfl, .nil s⟩
  | @cons s _ _ e _ hnext _ ih =>
    obtain ⟨sent, hv⟩ := hnext
    obtain ⟨vs, hvs, hrun⟩ := ih
    exact ⟨⟨s.i, e, sent⟩ :: vs, congrArg (e :: ·) hvs, .cons ⟨rfl, hv⟩ hrun⟩

/-- The client `a` connects and subscribes. -/
theorem registry_refines_one_client : ∃ (vs : List Visit) (s : Server),
    vs.map Visit.event = pass 5 6 (.accept 6 [0x61] []) ++
      pass 6 6 (.request (1 :: 0x74 :: List.replicate 50 0) []) ∧
    Run Registry.Next Registry.start (vs.map fun v => (v.action, answersOf v.sent))
      s.registry := by
  have hrun : ((Server.start someSockets).exec someSockets (pass 5 6 (.accept 6 [0x61] []) ++
      pass 6 6 (.request (1 :: 0x74 :: List.replicate 50 0) []))).isSome = true := by
    decide +kernel
  obtain ⟨s, hs⟩ := Option.isSome_iff_exists.mp hrun
  obtain ⟨vs, hvs, hvisits⟩ := exists_visits (Server.run_of_exec hs)
  exact ⟨vs, s, hvs, registry_refines someSockets hvisits⟩

end TemePCom.PubSub
