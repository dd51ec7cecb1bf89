/-
TemePCom/PubSub/Broadcast.lean

Who is sent a message, as the subscribers see it.

A datagram is transmitted on descriptors, and a subscriber knows nothing of these: it knows
what it has asked and what it has been told.  `datagram_reaches` says that the two fit, in any
interleaving: every connected subscriber of the topic has the message once on its
connection, behind what was on its way, nobody else has anything, and for a subscriber with
an answer on the topic the last answer says which of the two it is.

The server sends to one after the other, and a `send` to a subscriber that has left may end
it: then those behind get nothing.  As long as the subscribers of the topic run, none fails.

This rests on the descriptors in the copies (`Agree`), so it is about the runs in which
every client that is let in again gets the descriptor it had (`System.Keeping`).
-/
import TemePCom.PubSub.Agreement
import TemePCom.PubSub.StoreForward

namespace TemePCom.PubSub

open OrdMap Runs

/-! ### The moves of the server -/

/-- A client that is let in gets the descriptor its subscriptions have recorded. -/
def System.KeepsDescriptor (y : System) (mv : Move) : Prop :=
  ∀ e, y.event mv = some e → PubSub.KeepsDescriptor y.srv e

/-- A move that keeps the descriptors. -/
def System.Keeping (k : Sockets) (y : System) (mv : Move) (y' : System) : Prop :=
  System.Next k y mv y' ∧ y.KeepsDescriptor mv

section Moves

variable {k : Sockets} {y y' : System} {mv : Move}

theorem srv_of_visit {e : Event} (h : y.visit k e = some y') :
    ∃ sent, y.srv.visit k e = some (y'.srv, sent) := by
  obtain ⟨⟨s', sent⟩, hv, rfl⟩ := Option.map_eq_some_iff.mp h
  exact ⟨sent, hv⟩

/-- **The server's part of a move**: none, or a visit. -/
theorem srv_of_move (h : y.move k mv = some y') : y'.srv = y.srv ∨
    ∃ e sent, y.event mv = some e ∧ y.srv.visit k e = some (y'.srv, sent) := by
  cases mv with
  | launch n id =>
    simp only [System.move] at h
    split at h
    · exact Or.inl (Option.some.inj h ▸ rfl)
    · cases h
  | types n input beyond | hears n padding beyond =>
    simp only [System.move, Option.bind_eq_bind, Option.bind_eq_some_iff] at h
    obtain ⟨p, -, p', -, h⟩ := h
    exact Or.inl (Option.some.inj h ▸ rfl)
  | select ready | skip | datagram msg ip port beyond =>
    obtain ⟨sent, hv⟩ := srv_of_visit h
    exact Or.inr ⟨_, sent, rfl, hv⟩
  | accept n newFd beyond =>
    simp only [System.move, Option.bind_eq_bind, Option.bind_eq_some_iff] at h
    obtain ⟨p, hp, h⟩ := h
    split at h
    · rename_i frame rest hwait hup
      obtain ⟨sent, hv⟩ := srv_of_visit h
      refine Or.inr ⟨_, sent, ?_, hv⟩
      rw [System.event, hp, Option.map_some, hup]
      rfl
    · cases h
  | serve beyond =>
    simp only [System.move, Option.bind_eq_bind, Option.bind_eq_some_iff] at h
    obtain ⟨n, hline, p, hp, h⟩ := h
    have hevent : y.event (.serve beyond) = some (.request (p.up.headD []) beyond) := by
      rw [System.event, hline, Option.bind_some, hp, Option.map_some]
    split at h
    · rename_i frame rest hup
      obtain ⟨sent, hv⟩ := srv_of_visit h
      refine Or.inr ⟨_, sent, hevent, ?_⟩
      rw [hup]
      exact hv
    · rename_i hup
      split_ifs at h
      obtain ⟨sent, hv⟩ := srv_of_visit h
      refine Or.inr ⟨_, sent, hevent, ?_⟩
      rw [hup]
      exact hv

/-- The records are in order, and the copies have the right descriptors. -/
def Filed (y : System) : Prop := Records y.srv ∧ Agree y.srv

theorem filed_start (k : Sockets) : Filed (System.start k) := by
  refine ⟨records_start k, fun T id copy fd hcopy => ?_⟩
  obtain ⟨topicMap, htopic, -⟩ := exists_topic hcopy
  cases lookup_empty.symm.trans htopic

theorem filed_move (h : Filed y) (hnext : System.Keeping k y mv y') : Filed y' := by
  rcases srv_of_move hnext.1 with hsrv | ⟨e, sent, hevent, hv⟩
  · rw [Filed, hsrv]
    exact h
  · have ho := outcome_of_visit hv
    exact ⟨records_step h.1 ho, agree_step h.2 ho (hnext.2 e hevent)⟩

theorem keeping_reachable (h : Reachable (System.Keeping k) (System.start k) y) :
    Wired k y ∧ AllConversing y ∧ Filed y := by
  have hstep (y : System) (mv : Move) (y' : System) (hy : Wired k y ∧ AllConversing y ∧ Filed y)
      (hnext : System.Keeping k y mv y') : Wired k y' ∧ AllConversing y' ∧ Filed y' := by
    obtain ⟨hw, hc⟩ := sound_move hy.1 hy.2.1 hnext.1
    exact ⟨hw, hc, filed_move hy.2.2 hnext⟩
  obtain ⟨hw, hc⟩ := sound_start k
  exact h.invariant hstep ⟨hw, hc, filed_start k⟩

end Moves

/-! ### One message -/

/-- The subscriber is connected, and the server holds its subscription. -/
def System.Gets (y : System) (T : Bytes) (n : ℕ) : Prop :=
  ∃ fd id, y.line fd = some n ∧ y.srv.socketOf id = some fd ∧ (copyOf y.srv.topics T id).isSome

section Message

variable {k : Sockets} {y y' : System} {n : ℕ} {T : Bytes}

/-- Of transmissions of one content on different descriptors, a subscriber gets the one on
its own. -/
theorem contentsFor_of_content {line : ℕ → Option ℕ} {fd : ℕ} {c : Content}
    {sent : List Transmission} (hfd : ∀ fd', line fd' = some n ↔ fd' = fd)
    (hcontent : ∀ t ∈ sent, t.content = c) (hnodup : sent.Nodup) :
    contentsFor line n sent = if ⟨fd, c⟩ ∈ sent then [c] else [] := by
  have honly : ∀ t ∈ sent, line t.fd = some n → t = ⟨fd, c⟩ := by
    rintro ⟨fd', c'⟩ ht hline
    rw [(hfd fd').mp hline, ← hcontent _ ht]
  split_ifs with hmem
  · exact contentsFor_eq_singleton hnodup hmem ((hfd fd).mpr rfl) honly
  · exact contentsFor_eq_nil fun t ht hline => hmem (honly t ht hline ▸ ht)

/-- The subscribers that get a message are those on the descriptors it is transmitted on. -/
theorem gets_iff_mem (hw : Wired k y) (hexact : ExactDelivery y.srv) {topicMap : ClientMap}
    (htopic : y.srv.topics[T]? = some topicMap) (msg : CliMsg) {fd : ℕ}
    (hline : y.line fd = some n) : y.Gets T n ↔ (⟨fd, .msg msg⟩ : Transmission) ∈
      (sendNewMsg topicMap msg y.srv.connected y.srv.saved T).1 := by
  rw [(hexact T topicMap msg htopic).2]
  constructor
  · rintro ⟨fd', id, hline', hid, hcopy⟩
    obtain rfl := hw.one_line fd fd' n hline hline'
    obtain ⟨c, hc, rfl⟩ := exists_of_socketOf hid
    rw [copyOf_eq htopic] at hcopy
    exact ⟨id, c, mem_iff.mpr (Option.isSome_iff_exists.mp hcopy), hc, rfl⟩
  · rintro ⟨id, c, hin, hc, heq⟩
    obtain rfl := congrArg Transmission.fd heq
    refine ⟨_, id, hline, socketOf_eq hc, ?_⟩
    rw [copyOf_eq htopic]
    exact Option.isSome_iff_exists.mpr (mem_iff.mp hin)

/-- The transmissions of a message, by subscribers. -/
theorem contentsFor_sendNewMsg (hw : Wired k y) (hexact : ExactDelivery y.srv)
    {topicMap : ClientMap} (htopic : y.srv.topics[T]? = some topicMap) (msg : CliMsg) :
    (y.Gets T n → contentsFor y.line n
      (sendNewMsg topicMap msg y.srv.connected y.srv.saved T).1 = [.msg msg]) ∧
    (¬ y.Gets T n → contentsFor y.line n
      (sendNewMsg topicMap msg y.srv.connected y.srv.saved T).1 = []) := by
  obtain ⟨hnodup, hmem⟩ := hexact T topicMap msg htopic
  have hcontent : ∀ t ∈ (sendNewMsg topicMap msg y.srv.connected y.srv.saved T).1,
      t.content = .msg msg := by
    intro t ht
    obtain ⟨id, c, -, -, rfl⟩ := (hmem t).mp ht
    rfl
  by_cases hline : ∃ fd, y.line fd = some n
  · obtain ⟨fd, hfd⟩ := hline
    have honly : ∀ fd', y.line fd' = some n ↔ fd' = fd := fun fd' =>
      ⟨fun h => hw.one_line fd' fd n h hfd, fun h => h ▸ hfd⟩
    rw [contentsFor_of_content honly hcontent hnodup]
    have hgets := gets_iff_mem hw hexact htopic msg hfd
    exact ⟨fun h => if_pos (hgets.mp h), fun h => if_neg fun hin => h (hgets.mpr hin)⟩
  · have hnil : contentsFor y.line n
        (sendNewMsg topicMap msg y.srv.connected y.srv.saved T).1 = [] :=
      contentsFor_eq_nil fun ⟨fd, _⟩ _ hfd => hline ⟨fd, hfd⟩
    refine ⟨fun h => ?_, fun _ => hnil⟩
    obtain ⟨fd, -, hfd, -⟩ := h
    exact absurd ⟨fd, hfd⟩ hline

/-- Up to the first `send` that fails, everybody has got a part of what was meant for them. -/
theorem contentsFor_untilFailure (line : ℕ → Option ℕ) (n : ℕ) (fails : ℕ → Bool)
    (sent : List Transmission) :
    contentsFor line n (untilFailure fails sent) <+: contentsFor line n sent :=
  (List.takeWhile_prefix _).filterMap _

/-- Without the topic nobody gets anything. -/
theorem not_gets_of_none (h : y.srv.topics[T]? = none) : ¬ y.Gets T n := by
  rintro ⟨fd, id, -, -, hcopy⟩
  obtain ⟨copy, hcopy⟩ := Option.isSome_iff_exists.mp hcopy
  obtain ⟨topicMap, htopic, -⟩ := exists_topic hcopy
  cases h.symm.trans htopic

/-- What the last answer on a topic says is whether the subscriber gets its messages. -/
theorem gets_iff_verdict (hw : Wired k y) (hc : AllConversing y) {fd : ℕ} {p : Peer} {id : Bytes}
    (hline : y.line fd = some n) (hp : y.peer n = some p) (hid : y.srv.socketOf id = some fd)
    (hkeys : ∀ m ∈ p.asked, 0 ∈ m.topic.toList) {b : Bool} (hb : verdict p.log T = some b) :
    y.Gets T n ↔ b = true := by
  have hconv := hc fd n p id hline hp ((ownerOf_eq_some_iff hw.books).mpr hid)
  have hsubs : (copyOf y.srv.topics T id).isSome ↔ b = true := hconv.log_eq.2 hkeys T b hb
  rw [← hsubs]
  constructor
  · rintro ⟨fd', id', hline', hid', hcopy⟩
    obtain rfl := hw.one_line fd fd' n hline hline'
    obtain rfl := hw.books.inj id id' fd hid hid'
    exact hcopy
  · exact fun hcopy => ⟨fd, id, hline, hid, hcopy⟩

/-- **Who is sent a message**, in any interleaving in which the descriptors are kept: every
connected subscriber of the topic, once, and nobody else; and a subscriber that has been
answered on the topic knows which it is.  No `send` can fail if these subscribers still run;
up to one that fails, a subscriber of the topic has got the message or nothing. -/
theorem datagram_reaches (h : Reachable (System.Keeping k) (System.start k) y) {msg : FromUdp}
    {ip : UInt32} {port : UInt16} {beyond : Bytes}
    (hmove : y.move k (.datagram msg ip port beyond) = some y') {p : Peer}
    (hp : y.peer n = some p) :
    (y.Gets (msg.topicStr beyond) n → y'.peer n = some (p.receives [.msg ⟨msg, ip, port⟩])) ∧
    (¬ y.Gets (msg.topicStr beyond) n → y'.peer n = some p) ∧
    ((∀ n' q, y.Gets (msg.topicStr beyond) n' → y.peer n' = some q → q.running = true) →
      y.Safe k (.datagram msg ip port beyond)) ∧
    (∀ fails contents, contents = contentsFor y.line n
        (untilFailure fails (y.sends k (.datagram msg ip port beyond))) →
      contents <+: [.msg ⟨msg, ip, port⟩] ∧
        (¬ y.Gets (msg.topicStr beyond) n → contents = [])) ∧
    ∀ fd id, y.line fd = some n → y.srv.socketOf id = some fd →
      (∀ m ∈ p.asked, 0 ∈ m.topic.toList) → ∀ b, verdict p.log (msg.topicStr beyond) = some b →
        (y.Gets (msg.topicStr beyond) n ↔ b = true) := by
  obtain ⟨hw, hc, hrec, hagree⟩ := keeping_reachable h
  have hverdict : ∀ fd id, y.line fd = some n → y.srv.socketOf id = some fd →
      (∀ m ∈ p.asked, 0 ∈ m.topic.toList) → ∀ b, verdict p.log (msg.topicStr beyond) = some b →
        (y.Gets (msg.topicStr beyond) n ↔ b = true) :=
    fun fd id hline hid hkeys b hb => gets_iff_verdict hw hc hline hp hid hkeys hb
  obtain ⟨s', sent, hv, -, -, rfl⟩ := visit_cases hw hmove
  rw [peer_after, hp, Option.map_some, System.Safe, System.sends_eq rfl hv]
  -- what is transmitted to the subscriber, and to whom anything is
  obtain ⟨hyes, hno, hto⟩ : (y.Gets (msg.topicStr beyond) n →
        contentsFor y.line n sent = [.msg ⟨msg, ip, port⟩]) ∧
      (¬ y.Gets (msg.topicStr beyond) n → contentsFor y.line n sent = []) ∧
      ∀ t ∈ sent, ∀ n', y.line t.fd = some n' → y.Gets (msg.topicStr beyond) n' := by
    cases outcome_of_visit hv with
    | newTopic hnone =>
      exact ⟨fun hgets => absurd hgets (not_gets_of_none hnone), fun _ => rfl,
        fun t ht => absurd ht List.not_mem_nil⟩
    | published htopic =>
      have hexact := exactDelivery_of_agree hw.books hrec hagree
      obtain ⟨hyes, hno⟩ := contentsFor_sendNewMsg (n := n) hw hexact htopic ⟨msg, ip, port⟩
      refine ⟨hyes, hno, fun t ht n' hline => ?_⟩
      obtain ⟨id, c, -, -, rfl⟩ := ((hexact _ _ ⟨msg, ip, port⟩ htopic).2 t).mp ht
      exact (gets_iff_mem hw hexact htopic ⟨msg, ip, port⟩ hline).mpr ht
  refine ⟨fun hgets => ?_, fun hgets => ?_, fun hruns t ht hleft => ?_, ?_, hverdict⟩
  · rw [hyes hgets]
  · rw [hno hgets, receives_nil]
  · obtain ⟨n', q, hline, hq, hleft⟩ := hleft
    rw [hruns n' q (hto t ht n' hline) hq] at hleft
    cases hleft
  · rintro fails contents rfl
    have hcut := contentsFor_untilFailure y.line n fails sent
    refine ⟨?_, fun hgets => List.prefix_nil.mp (hno hgets ▸ hcut)⟩
    by_cases hgets : y.Gets (msg.topicStr beyond) n
    · exact hyes hgets ▸ hcut
    · exact (hno hgets ▸ hcut).trans List.nil_prefix

end Message

/-! ### A run -/

def Move.isAccept : Move → Bool
  | .accept _ _ _ => true
  | _ => false

/-- A move; clients are let in only as long as there are no topics. -/
def System.early (k : Sockets) (y : System) (mv : Move) : Option System :=
  if mv.isAccept = false ∨ y.srv.topics.isEmpty then y.move k mv else none

/-- A client that is let in early has no subscriptions. -/
theorem keeping_of_early {k : Sockets} {y y' : System} {mv : Move}
    (h : y.early k mv = some y') : System.Keeping k y mv y' := by
  unfold System.early at h
  split_ifs at h with hmv
  refine ⟨h, fun e he => ?_⟩
  cases mv with
  | launch | types | hears => cases he
  | select | skip | datagram => exact Option.some.inj he ▸ trivial
  | serve beyond =>
    obtain ⟨p, -, rfl⟩ := Option.map_eq_some_iff.mp he
    trivial
  | accept n newFd beyond =>
    obtain ⟨p, -, rfl⟩ := Option.map_eq_some_iff.mp he
    intro _ _ T copy hcopy
    obtain ⟨topicMap, htopic, -⟩ := exists_topic hcopy
    have hempty := hmv.resolve_left fun hc => nomatch hc
    rw [Std.ExtTreeMap.isEmpty_iff.mp hempty] at htopic
    cases lookup_empty.symm.trans htopic

/-- `a` has subscribed to `t`, and a datagram on `t` is about to be read. -/
def oneDatagram : List Move :=
  oneRequest ++ [.serve [], .hears 0 ⟨0, 0, 0⟩ [], .select {4}, .skip, .skip, .skip]

/-- It is sent the message. -/
theorem datagram_reaches_one_client : ∃ (y y' : System) (p : Peer),
    y.move someSockets (.datagram letterMsg 0 0 []) = some y' ∧ y.peer 0 = some p ∧
      p.told = [subscribedCode] ∧ y'.peer 0 = some (p.receives [.msg ⟨letterMsg, 0, 0⟩]) := by
  have hrun : (Runs.exec (System.early someSockets) (System.start someSockets) oneDatagram).map
      (fun y => (y.line 6, y.peer 0, y.srv.socketOf [0x61],
        (y.move someSockets (.datagram letterMsg 0 0 [])).isSome)) =
      some (some 0, some ⟨true, true, [], [], [⟨1, topicField [0x74], 0⟩], [subscribedCode]⟩,
        some 6, true) := by
    decide +kernel
  obtain ⟨y, hy, hview⟩ := Option.map_eq_some_iff.mp hrun
  simp only [Prod.mk.injEq] at hview
  obtain ⟨hline, hp, hid, hsome⟩ := hview
  obtain ⟨y', hmove⟩ := Option.isSome_iff_exists.mp hsome
  have hkeep (y : System) (mv : Move) (y' : System) (hmv : y.early someSockets mv = some y') :
      System.Keeping someSockets y mv y' := keeping_of_early hmv
  have hreach : Reachable (System.Keeping someSockets) (System.start someSockets) y :=
    ⟨_, Runs.run_of_exec hkeep hy⟩
  obtain ⟨hgets, -, -, -, hverdict⟩ := datagram_reaches hreach hmove hp
  refine ⟨y, y', _, hmove, hp, rfl, hgets ?_⟩
  refine (hverdict 6 [0x61] hline hid (fun m hm => ?_) true (by decide +kernel)).mpr rfl
  obtain rfl := List.mem_singleton.mp hm
  decide

end TemePCom.PubSub
