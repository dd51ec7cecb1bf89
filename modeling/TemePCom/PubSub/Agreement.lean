/-
TemePCom/PubSub/Agreement.lean

What the subscribers and the server know of each other.

The server tells its subscribers apart by descriptors, which are used again, and its
answers carry no mark of what they answer.  `agreement` says that a subscriber that pairs
what it has asked with what it is told, in order, knows what the server holds about it, and
`served` that, as long as it runs, none of its requests stops the server or is heard by anybody
else.

The invariant has two halves: `Wired` is about who is on which descriptor, and `Conversing`
about the requests and the answers of one subscriber.
-/
import TemePCom.PubSub.System
import TemePCom.PubSub.Delivery

namespace TemePCom.PubSub

open Runs

/-! ### Requests at the registry -/

theorem length_bytes (m : FromTcp) : m.bytes.length = 52 := by
  simp [FromTcp.bytes]

/-- The key the server reads is the topic, if there is a zero in its field. -/
theorem topicStr_eq_key {m : FromTcp} (h : 0 ∈ m.topic.toList) (beyond : Bytes) :
    m.topicStr beyond = m.key := by
  obtain ⟨text, rest, htopic, hnul⟩ := List.eq_append_cons_of_mem h
  rw [FromTcp.topicStr, FromTcp.key, htopic, List.append_assoc, cString_append hnul,
    cString_append hnul]
  rfl

/-- A request for or against a topic. -/
def FromTcp.Valid (m : FromTcp) : Prop := m.type = unsubscribeType ∨ m.type = subscribeType

/-- What the registry makes of a request: one answer, no other client's subscription is
changed, and the requester is subscribed to the topic afterwards as the answer says. -/
structure Handled (r r' : Registry) (fd : ℕ) (id T : Bytes) (code : Opcode) : Prop where
  not_exit : code ≠ .exit
  owner : r'.owner = r.owner
  others : ∀ id', id' ≠ id → ∀ T', (id', T') ∈ r'.subs ↔ (id', T') ∈ r.subs
  other_topics : ∀ T', T' ≠ T → ((id, T') ∈ r'.subs ↔ (id, T') ∈ r.subs)
  subscribed : (id, T) ∈ r'.subs ↔ saysSubscribed code.code = true

theorem handled_request {r r' : Registry} {fd : ℕ} {id beyond : Bytes} {m : FromTcp}
    {answers : List (ℕ × Opcode)} (hm : m.Valid) (howner : r.owner fd = some id)
    (htopics : ∀ T, (id, T) ∈ r.subs → T ∈ r.topics)
    (hact : r.act (requestAction fd m.bytes beyond) = (r', answers)) :
    ∃ code, answers = [(fd, code)] ∧ Handled r r' fd id (m.topicStr beyond) code := by
  have hframe : m.bytes ≠ [] := List.cons_ne_nil _ _
  have htopic : requestTopic m.bytes beyond = m.topicStr beyond := by
    rw [requestTopic, ofBytes_bytes]
  rcases hm with htype | htype
  · rw [requestAction_unsubscribe hframe (by rw [ofBytes_bytes, htype]), htopic] at hact
    simp only [Registry.act, howner] at hact
    split_ifs at hact with hT
    · obtain ⟨rfl, rfl⟩ := Prod.mk.inj hact
      refine ⟨_, rfl, by decide, rfl, ?_, ?_, ?_⟩
      · intro id' hid T'
        simp [hid]
      · intro T' hT'
        simp [hT']
      · simp
        decide
    · obtain ⟨rfl, rfl⟩ := Prod.mk.inj hact
      refine ⟨_, rfl, by decide, rfl, fun _ _ _ => Iff.rfl, fun _ _ => Iff.rfl, ?_⟩
      exact iff_of_false (fun hsub => hT (htopics _ hsub)) (by decide)
  · rw [requestAction_subscribe hframe (by rw [ofBytes_bytes, htype]), htopic] at hact
    simp only [Registry.act, howner] at hact
    split_ifs at hact with hT
    · obtain ⟨rfl, rfl⟩ := Prod.mk.inj hact
      refine ⟨_, rfl, by decide, rfl, fun _ _ _ => Iff.rfl, fun _ _ => Iff.rfl, ?_⟩
      exact iff_of_true hT (by decide)
    · obtain ⟨rfl, rfl⟩ := Prod.mk.inj hact
      refine ⟨_, rfl, by decide, rfl, ?_, ?_, ?_⟩
      · intro id' hid T'
        simp [hid]
      · intro T' hT'
        simp [hT']
      · simp
        decide

/-! ### Conversations -/

/-- The requests of the subscriber are those that have been handled and those on their way;
the answers to the former have been read or are on their way, in order; and what the last
answer on a topic says is what the server holds. -/
def Conversing (r : Registry) (id : Bytes) (p : Peer) : Prop :=
  ∃ (handled : List (FromTcp × ℤ)) (pending : List FromTcp),
    p.asked = handled.map Prod.fst ++ pending ∧ p.up = pending.map FromTcp.bytes ∧
      p.told ++ p.codes = handled.map Prod.snd ∧ exitCode ∉ handled.map Prod.snd ∧
        ((∀ m ∈ p.asked, 0 ∈ m.topic.toList) → ∀ T b, verdict handled T = some b →
          ((id, T) ∈ r.subs ↔ b = true))

section Conversing

variable {r r' : Registry} {id : Bytes} {p : Peer} {contents : List Content}

/-- A connected client is not told to exit. -/
theorem Conversing.exit_notMem (h : Conversing r id p) : exitCode ∉ p.codes := by
  obtain ⟨handled, pending, -, -, htold, hexit, -⟩ := h
  exact fun hmem => hexit (htold ▸ List.mem_append_right _ hmem)

/-- Messages come in between. -/
theorem Conversing.receives (h : Conversing r id p)
    (hsubs : ∀ T, (id, T) ∈ r'.subs ↔ (id, T) ∈ r.subs)
    (hcodes : contents.filterMap Content.code = []) : Conversing r' id (p.receives contents) := by
  obtain ⟨handled, pending, hasked, hup, htold, hexit, hview⟩ := h
  refine ⟨handled, pending, hasked, hup, ?_, hexit, fun hkeys T b hb => ?_⟩
  · rw [codes_receives, hcodes, List.append_nil]
    exact htold
  · rw [hsubs]
    exact hview hkeys T b hb

/-- More requests are sent. -/
theorem Conversing.asks (h : Conversing r id p) (sent : List FromTcp) : Conversing r id
    { p with
      up := p.up ++ sent.map FromTcp.bytes
      asked := p.asked ++ sent } := by
  obtain ⟨handled, pending, hasked, hup, htold, hexit, hview⟩ := h
  refine ⟨handled, pending ++ sent, ?_, ?_, htold, hexit, fun hkeys => ?_⟩
  · simp [hasked]
  · simp [hup]
  · exact hview fun m hm => hkeys m (List.mem_append_left _ hm)

/-- The next request is answered. -/
theorem Conversing.answered {frame : Bytes} {rest : List Bytes} (h : Conversing r id p)
    (hup : p.up = frame :: rest) : ∃ m ∈ p.asked, frame = m.bytes ∧
      ∀ (r' : Registry) (contents : List Content) (fd : ℕ) (T : Bytes) (code : Opcode),
        contents.filterMap Content.code = [code.code] → Handled r r' fd id T code →
          (0 ∈ m.topic.toList → T = m.key) →
            Conversing r' id (Peer.receives { p with up := rest } contents) := by
  obtain ⟨handled, pending, hasked, hup', htold, hexit, hview⟩ := h
  rw [hup] at hup'
  obtain ⟨m, pending, rfl, rfl, rfl⟩ := List.map_eq_cons_iff.mp hup'.symm
  have hmem : m ∈ p.asked := by simp [hasked]
  refine ⟨m, hmem, rfl, fun r' contents fd T code hcodes hh hT => ?_⟩
  refine ⟨handled ++ [(m, code.code)], pending, ?_, rfl, ?_, ?_, fun hkeys T' b hb => ?_⟩
  · show p.asked = _
    simp [hasked]
  · rw [codes_receives, hcodes, ← List.append_assoc]
    show p.told ++ p.codes ++ _ = _
    rw [htold, List.map_append]
    rfl
  · have hcode : exitCode ≠ code.code := by
      have hne := hh.not_exit
      cases code <;> first | exact absurd rfl hne | decide
    simpa [hcode] using hexit
  · -- the topic of this request, or one about which there is nothing new
    rw [verdict_append] at hb
    have hkey := hT (hkeys m hmem)
    split_ifs at hb with heq
    · obtain rfl := Option.some.inj hb
      rw [← heq, ← hkey]
      exact hh.subscribed
    · rw [hh.other_topics T' fun hc => heq (hkey ▸ hc.symm)]
      exact hview hkeys T' b hb

/-- The subscriber reads what has come in. -/
theorem Conversing.hears {p' : Peer} {padding : Padding} {beyond : Bytes}
    (h : Conversing r id p) (hp' : p.hears padding beyond = some p') : Conversing r id p' := by
  obtain ⟨hrun, c, rest, hdown⟩ := exists_of_hears hp'
  obtain ⟨handled, pending, hasked, hup, htold, hexit, hview⟩ := h
  rw [Peer.codes, hdown] at htold
  cases c with
  | msg m =>
    rw [hears_msg hrun hdown] at hp'
    obtain rfl := Option.some.inj hp'
    exact ⟨handled, pending, hasked, hup, htold, hexit, hview⟩
  | opcode code =>
    replace htold : p.told ++ code.code :: rest.filterMap Content.code =
      handled.map Prod.snd := htold
    have hne : code ≠ .exit := by
      rintro rfl
      exact hexit (htold ▸ List.mem_append_right _ List.mem_cons_self)
    rw [hears_opcode hrun hdown, if_neg hne] at hp'
    obtain rfl := Option.some.inj hp'
    refine ⟨handled, pending, hasked, hup, ?_, hexit, hview⟩
    rw [← htold]
    exact List.append_assoc _ _ _

end Conversing

/-! ### Subscribers' moves -/

/-- What holds of a subscriber whatever the server does. -/
structure Peer.Orderly (p : Peer) : Prop where
  valid : ∀ m ∈ p.asked, m.Valid
  waiting : p.accepted = false →
    p.told = [] ∧ p.down = [] ∧ ∃ id, p.up = id :: p.asked.map FromTcp.bytes

theorem valid_of_commandSent {buffer : Bytes} {m : FromTcp} (h : m ∈ commandSent buffer) :
    m.Valid := by
  unfold commandSent at h
  split_ifs at h
  · rw [sendSubscription_eq] at h
    split at h
    · obtain rfl := Option.some.inj (Option.mem_toList.mp h)
      exact Or.inr rfl
    · cases h
  · rw [removeSubscription_eq] at h
    split at h
    · obtain rfl := Option.some.inj (Option.mem_toList.mp h)
      exact Or.inl rfl
    · cases h
  · cases h

/-- A line that is typed ends the loop, or is sent. -/
theorem types_cases {p p' : Peer} {input beyond : Bytes} (h : p.types input beyond = some p') :
    p' = { p with running := false } ∨ ∃ sent : List FromTcp, (∀ m ∈ sent, m.Valid) ∧
      p' = { p with
        up := p.up ++ sent.map FromTcp.bytes
        asked := p.asked ++ sent } := by
  unfold Peer.types at h
  split_ifs at h
  split at h
  · cases h
  · exact Or.inl (Option.some.inj h).symm
  · rename_i sent hrecv
    refine Or.inr ⟨sent, fun m hm => ?_, (Option.some.inj h).symm⟩
    unfold recvFromStdin at hrecv
    simp only at hrecv
    split_ifs at hrecv <;> cases hrecv <;> exact valid_of_commandSent hm

/-- What is heard leaves the connection. -/
theorem hears_cases {p p' : Peer} {padding : Padding} {beyond : Bytes}
    (h : p.hears padding beyond = some p') : p.down ≠ [] ∧ p'.accepted = p.accepted ∧
      p'.asked = p.asked ∧ p'.up = p.up := by
  obtain ⟨hrun, c, rest, hdown⟩ := exists_of_hears h
  refine ⟨by simp [hdown], ?_⟩
  cases c with
  | msg m =>
    rw [hears_msg hrun hdown] at h
    obtain rfl := Option.some.inj h
    exact ⟨rfl, rfl, rfl⟩
  | opcode code =>
    rw [hears_opcode hrun hdown] at h
    obtain rfl := Option.some.inj h
    split_ifs <;> exact ⟨rfl, rfl, rfl⟩

theorem Peer.Orderly.types {p p' : Peer} {input beyond : Bytes} (h : p.Orderly)
    (hp' : p.types input beyond = some p') : p'.Orderly := by
  rcases types_cases hp' with rfl | ⟨sent, hvalid, rfl⟩
  · exact ⟨h.valid, h.waiting⟩
  · refine ⟨fun m hm => ?_, fun hacc => ?_⟩
    · rcases List.mem_append.mp hm with hm | hm
      · exact h.valid m hm
      · exact hvalid m hm
    · obtain ⟨htold, hdown, id, hup⟩ := h.waiting hacc
      exact ⟨htold, hdown, id, by simp [hup]⟩

theorem Peer.Orderly.hears {p p' : Peer} {padding : Padding} {beyond : Bytes} (h : p.Orderly)
    (hp' : p.hears padding beyond = some p') : p'.Orderly := by
  obtain ⟨hdown, hacc, hasked, hup⟩ := hears_cases hp'
  refine ⟨hasked ▸ h.valid, fun hwait => ?_⟩
  exact absurd (h.waiting (hacc ▸ hwait)).2.1 hdown

theorem Peer.Orderly.receives {p : Peer} {contents : List Content} (h : p.Orderly)
    (hwait : p.accepted = false → contents = []) : (p.receives contents).Orderly := by
  refine ⟨h.valid, fun hacc => ?_⟩
  obtain ⟨htold, hdown, hup⟩ := h.waiting hacc
  exact ⟨htold, by simp [Peer.receives, hdown, hwait hacc], hup⟩

/-! ### Who is where -/

/-- The wiring of the system: every connected client is a subscriber that has been accepted,
on a descriptor of its own. -/
structure Wired (k : Sockets) (y : System) : Prop where
  books : Descriptors k y.srv
  accepted : ∀ fd n, y.line fd = some n → ∃ p, y.peer n = some p ∧ p.accepted = true
  one_line : ∀ fd fd' n, y.line fd = some n → y.line fd' = some n → fd = fd'
  has_line : ∀ fd id, y.srv.registry.owner fd = some id → ∃ n, y.line fd = some n
  orderly : ∀ n p, y.peer n = some p → p.Orderly

/-- The server has heard of its clients' requests in order. -/
def AllConversing (y : System) : Prop :=
  ∀ fd n p id, y.line fd = some n → y.peer n = some p → y.srv.registry.owner fd = some id →
    Conversing y.srv.registry id p

section Wiring

variable {k : Sockets} {y y' : System} {n : ℕ} {p p' : Peer}

theorem peer_put (n' : ℕ) : (y.put n p).peer n' = if n' = n then some p else y.peer n' := by
  simp [System.put, Function.update_apply]

theorem Wired.put (h : Wired k y) (hp : y.peer n = some p) (hp' : p'.Orderly)
    (hacc : p'.accepted = p.accepted) : Wired k (y.put n p') where
  books := h.books
  accepted := by
    intro fd n' hline
    obtain ⟨q, hq, hqacc⟩ := h.accepted fd n' hline
    rw [peer_put]
    split_ifs with heq
    · subst heq
      obtain rfl := Option.some.inj (hp.symm.trans hq)
      exact ⟨p', rfl, hacc.trans hqacc⟩
    · exact ⟨q, hq, hqacc⟩
  one_line := h.one_line
  has_line := h.has_line
  orderly := by
    intro n' q hq
    rw [peer_put] at hq
    split_ifs at hq
    · exact Option.some.inj hq ▸ hp'
    · exact h.orderly n' q hq

theorem AllConversing.put (h : AllConversing y) (hp : y.peer n = some p)
    (hconv : ∀ r id, Conversing r id p → Conversing r id p') : AllConversing (y.put n p') := by
  intro fd n' q id hline hq howner
  rw [peer_put] at hq
  split_ifs at hq with heq
  · subst heq
    obtain rfl := Option.some.inj hq
    exact hconv _ id (h fd n' p id hline hp howner)
  · exact h fd n' q id hline hq howner

/-- A new subscriber is on no descriptor. -/
theorem Wired.launch (h : Wired k y) (hnone : y.peer n = none) (id : Bytes) :
    Wired k (y.put n (Peer.launched id)) := by
  refine ⟨h.books, fun fd n' hline => ?_, h.one_line, h.has_line, fun n' q hq => ?_⟩
  · obtain ⟨q, hq, hacc⟩ := h.accepted fd n' hline
    rw [peer_put, if_neg]
    · exact ⟨q, hq, hacc⟩
    · rintro rfl
      cases hnone.symm.trans hq
  · rw [peer_put] at hq
    split_ifs at hq
    · obtain rfl := Option.some.inj hq
      exact ⟨fun m hm => absurd hm List.not_mem_nil, fun _ => ⟨rfl, rfl, id, rfl⟩⟩
    · exact h.orderly n' q hq

theorem AllConversing.launch (h : AllConversing y) (hw : Wired k y) (hnone : y.peer n = none)
    (p : Peer) : AllConversing (y.put n p) := by
  intro fd n' q id hline hq howner
  obtain ⟨q', hq', -⟩ := hw.accepted fd n' hline
  rw [peer_put, if_neg] at hq
  · exact h fd n' q id hline hq howner
  · rintro rfl
    cases hnone.symm.trans hq'

end Wiring

/-! ### The server's moves -/

section Visits

variable {k : Sockets} {y y' : System} {e : Event} {s' : Server} {sent : List Transmission}

/-- A visit is a step of the registry. -/
theorem visit_cases (h : Wired k y) (hy' : y.visit k e = some y') : ∃ s' sent,
    y.srv.visit k e = some (s', sent) ∧ Descriptors k s' ∧
      y.srv.registry.act (Visit.action ⟨y.srv.i, e, sent⟩) = (s'.registry, answersOf sent) ∧
        y' = y.after s' sent := by
  obtain ⟨⟨s', sent⟩, hv, rfl⟩ := Option.map_eq_some_iff.mp hy'
  exact ⟨s', sent, hv, descriptors_step h.books (outcome_of_visit hv), act_of_visit h.books hv,
    rfl⟩

theorem peer_after (n : ℕ) : (y.after s' sent).peer n =
    (y.peer n).map fun p => p.receives (contentsFor y.line n sent) := rfl

theorem Wired.after (h : Wired k y) (hbooks : Descriptors k s')
    (hline : ∀ fd id, s'.registry.owner fd = some id → ∃ n, y.line fd = some n) :
    Wired k (y.after s' sent) where
  books := hbooks
  accepted := by
    intro fd n hfd
    obtain ⟨p, hp, hacc⟩ := h.accepted fd n hfd
    exact ⟨_, Option.map_eq_some_iff.mpr ⟨p, hp, rfl⟩, hacc⟩
  one_line := h.one_line
  has_line := hline
  orderly := by
    intro n q hq
    obtain ⟨p, hp, rfl⟩ := Option.map_eq_some_iff.mp hq
    refine (h.orderly n p hp).receives fun hwait => contentsFor_eq_nil fun ⟨fd, _⟩ _ hfd => ?_
    obtain ⟨p', hp', hacc⟩ := h.accepted fd n hfd
    obtain rfl := Option.some.inj (hp.symm.trans hp')
    exact Bool.false_ne_true (hwait.symm.trans hacc)

/-- A visit after which `n` has been sent no answer, and `id` has the subscriptions it had. -/
theorem Conversing.after {n : ℕ} {p : Peer} {id : Bytes}
    (h : Conversing y.srv.registry id p)
    (hsubs : ∀ T, (id, T) ∈ s'.registry.subs ↔ (id, T) ∈ y.srv.registry.subs)
    (hans : ∀ a ∈ answersOf sent, y.line a.1 ≠ some n) :
    Conversing s'.registry id (p.receives (contentsFor y.line n sent)) := by
  refine h.receives hsubs ?_
  rw [codes_contentsFor, List.map_eq_nil_iff, List.filter_eq_nil_iff]
  exact fun a ha hline => hans a ha (of_decide_eq_true hline)

/-- What no subscriber is answered to: nothing, a datagram, or the end of a connection. -/
def Action.Quiet : Action → Prop
  | .idle => True
  | .publish _ => True
  | .leave _ => True
  | _ => False

theorem act_quiet {r r' : Registry} {a : Action} {answers : List (ℕ × Opcode)} (ha : a.Quiet)
    (h : r.act a = (r', answers)) : answers = [] ∧ r'.subs = r.subs ∧
      ∀ fd id, r'.owner fd = some id → r.owner fd = some id := by
  cases a with
  | idle | publish _ =>
    obtain ⟨rfl, rfl⟩ := Prod.mk.inj h
    exact ⟨rfl, rfl, fun _ _ howner => howner⟩
  | leave fd =>
    obtain ⟨rfl, rfl⟩ := Prod.mk.inj h
    refine ⟨rfl, rfl, fun fd' id howner => ?_⟩
    by_cases heq : fd' = fd
    · subst heq
      simp at howner
    · simpa [heq] using howner
  | _ => cases ha

theorem sound_quiet (h : Wired k y) (hc : AllConversing y) (hy' : y.visit k e = some y')
    (hquiet : ∀ sent, (Visit.action ⟨y.srv.i, e, sent⟩).Quiet) : Wired k y' ∧ AllConversing y' := by
  obtain ⟨s', sent, -, hbooks, hact, rfl⟩ := visit_cases h hy'
  obtain ⟨hans, hsubs, howner⟩ := act_quiet (hquiet sent) hact
  refine ⟨h.after hbooks fun fd id hid => h.has_line fd id (howner fd id hid), ?_⟩
  intro fd n q id hline hq hid
  obtain ⟨p, hp, rfl⟩ := Option.map_eq_some_iff.mp hq
  have hsame : ∀ T, (id, T) ∈ s'.registry.subs ↔ (id, T) ∈ y.srv.registry.subs := fun T => by
    rw [hsubs]
  refine (hc fd n p id hline hp (howner fd id hid)).after hsame fun a ha => ?_
  rw [hans] at ha
  cases ha

/-- The descriptor that `accept` returns was nobody's. -/
theorem owner_newFd {newFd : ℕ} {frame beyond : Bytes} (h : Wired k y)
    (hv : y.srv.visit k (.accept newFd frame beyond) = some (s', sent)) (id : Bytes) :
    y.srv.registry.owner newFd ≠ some id := by
  intro howner
  obtain ⟨hen, -⟩ := Server.visit_eq_some.mp hv
  have hsock := (ownerOf_eq_some_iff h.books).mp howner
  exact hen.2.2.2 (h.books.isOpen (h.books.watched id newFd hsock).1)

theorem line_connect {n newFd fd n' : ℕ} (h : (y.connect n newFd).line fd = some n') :
    (fd = newFd ∧ n = n') ∨ (fd ≠ newFd ∧ y.line fd = some n') := by
  simp only [System.connect, Function.update_apply] at h
  split_ifs at h with heq
  · exact Or.inl ⟨heq, Option.some.inj h⟩
  · exact Or.inr ⟨heq, h⟩

section Connect

variable {n newFd : ℕ} {p : Peer}

/-- A subscriber that has not been accepted is on no descriptor. -/
theorem Wired.not_line (h : Wired k y) (hp : y.peer n = some p) (hwait : p.accepted = false)
    (fd : ℕ) : y.line fd ≠ some n := by
  intro hfd
  obtain ⟨q, hq, hacc⟩ := h.accepted fd n hfd
  obtain rfl := Option.some.inj (hp.symm.trans hq)
  exact Bool.false_ne_true (hwait.symm.trans hacc)

/-- A subscriber is connected to a descriptor that is nobody's. -/
theorem Wired.connect {p' : Peer} (h : Wired k y) (hp : y.peer n = some p)
    (hwait : p.accepted = false) (hacc : p'.accepted = true) (hp' : p'.Orderly)
    (hfree : ∀ id, y.srv.registry.owner newFd ≠ some id) :
    Wired k ((y.put n p').connect n newFd) := by
  refine ⟨h.books, fun fd n' hline => ?_, fun fd fd' n' hline hline' => ?_, fun fd id hid => ?_,
    fun n' q hq => ?_⟩
  · show ∃ q, (y.put n p').peer n' = some q ∧ q.accepted = true
    rw [peer_put]
    rcases line_connect hline with ⟨-, rfl⟩ | ⟨-, hold⟩
    · exact ⟨p', if_pos rfl, hacc⟩
    · have hne : n' ≠ n := fun heq => h.not_line hp hwait fd (heq ▸ hold)
      rw [if_neg hne]
      exact h.accepted fd n' hold
  · rcases line_connect hline with ⟨rfl, rfl⟩ | ⟨-, hold⟩
    · rcases line_connect hline' with ⟨rfl, -⟩ | ⟨-, hold'⟩
      · rfl
      · exact absurd hold' (h.not_line hp hwait fd')
    · rcases line_connect hline' with ⟨-, rfl⟩ | ⟨-, hold'⟩
      · exact absurd hold (h.not_line hp hwait fd)
      · exact h.one_line fd fd' n' hold hold'
  · by_cases heq : fd = newFd
    · exact absurd hid (heq ▸ hfree id)
    · obtain ⟨n', hn'⟩ := h.has_line fd id hid
      exact ⟨n', (Function.update_of_ne heq _ _).trans hn'⟩
  · replace hq : (y.put n p').peer n' = some q := hq
    rw [peer_put] at hq
    split_ifs at hq
    · exact Option.some.inj hq ▸ hp'
    · exact h.orderly n' q hq

theorem AllConversing.connect (h : AllConversing y) (hw : Wired k y) (hp : y.peer n = some p)
    (hwait : p.accepted = false) (p' : Peer)
    (hfree : ∀ id, y.srv.registry.owner newFd ≠ some id) :
    AllConversing ((y.put n p').connect n newFd) := by
  intro fd n' q id hline hq hid
  rcases line_connect hline with ⟨rfl, -⟩ | ⟨-, hold⟩
  · exact absurd hid (hfree id)
  · replace hq : (y.put n p').peer n' = some q := hq
    have hne : n' ≠ n := fun heq => hw.not_line hp hwait fd (heq ▸ hold)
    rw [peer_put, if_neg hne] at hq
    exact h fd n' q id hold hq hid

end Connect

/-- What the registry makes of a client that comes. -/
theorem act_arrive {r r' : Registry} {fd : ℕ} {id : Bytes} {answers : List (ℕ × Opcode)}
    (h : r.act (.arrive fd id) = (r', answers)) :
    (r' = r ∧ answers = [(fd, .exit)]) ∨
      (r' = { r with owner := Function.update r.owner fd (some id) } ∧ answers = []) := by
  simp only [Registry.act] at h
  split_ifs at h
  · obtain ⟨rfl, rfl⟩ := Prod.mk.inj h
    exact Or.inl ⟨rfl, rfl⟩
  · obtain ⟨rfl, rfl⟩ := Prod.mk.inj h
    exact Or.inr ⟨rfl, rfl⟩

/-- The visit at which a subscriber that is connected to `newFd` is let in, or turned away. -/
theorem sound_arrive {n newFd : ℕ} {p : Peer} {frame beyond : Bytes} (h : Wired k y)
    (hc : AllConversing y) (hp : y.peer n = some p) (hline : y.line newFd = some n)
    (hup : p.up = p.asked.map FromTcp.bytes) (htold : p.told = []) (hdown : p.down = [])
    (hframe : frame ≠ []) (hy' : y.visit k (.accept newFd frame beyond) = some y') :
    Wired k y' ∧ AllConversing y' := by
  obtain ⟨s', sent, hv, hbooks, hact, rfl⟩ := visit_cases h hy'
  have hfree := owner_newFd h hv
  simp only [Visit.action, if_neg hframe] at hact
  rcases act_arrive hact with ⟨hreg, hans⟩ | ⟨hreg, hans⟩
  · -- turned away: nobody else is told anything
    refine ⟨h.after hbooks fun fd id hid => h.has_line fd id (hreg ▸ hid), ?_⟩
    intro fd n' q id hfd hq hid
    replace hid : y.srv.registry.owner fd = some id := hreg ▸ hid
    obtain ⟨p', hp', rfl⟩ := Option.map_eq_some_iff.mp hq
    have hsame : ∀ T, (id, T) ∈ s'.registry.subs ↔ (id, T) ∈ y.srv.registry.subs := fun T => by
      rw [hreg]
    refine (hc fd n' p' id hfd hp' hid).after hsame fun a ha hto => ?_
    rw [hans] at ha
    obtain rfl := List.mem_singleton.mp ha
    -- the descriptor of the subscriber that is turned away has no owner
    obtain rfl := h.one_line _ _ n' hto hfd
    exact hfree id hid
  · -- let in, and told nothing yet but what it has missed
    have howner : ∀ fd id, s'.registry.owner fd = some id → fd ≠ newFd →
        y.srv.registry.owner fd = some id := by
      intro fd id hid hne
      rw [hreg] at hid
      exact (Function.update_of_ne hne _ _).symm.trans hid
    refine ⟨h.after hbooks fun fd id hid => ?_, ?_⟩
    · by_cases heq : fd = newFd
      · exact ⟨n, heq ▸ hline⟩
      · exact h.has_line fd id (howner fd id hid heq)
    · intro fd n' q id hfd hq hid
      obtain ⟨p', hp', rfl⟩ := Option.map_eq_some_iff.mp hq
      have hsame : ∀ T, (id, T) ∈ s'.registry.subs ↔ (id, T) ∈ y.srv.registry.subs := fun T => by
        rw [hreg]
      refine Conversing.after ?_ hsame fun a ha => ?_
      · by_cases heq : fd = newFd
        · -- nothing has been handled for it
          subst heq
          obtain rfl := Option.some.inj (hline.symm.trans hfd)
          obtain rfl := Option.some.inj (hp.symm.trans hp')
          refine ⟨[], p.asked, rfl, hup, by simp [htold, Peer.codes, hdown], List.not_mem_nil, ?_⟩
          intro _ T b hb
          cases hb
        · exact hc fd n' p' id hfd hp' (howner fd id hid heq)
      · rw [hans] at ha
        cases ha

/-- The visit at which the request of the subscriber `n` is handled. -/
theorem sound_serve {n : ℕ} {p : Peer} {frame beyond : Bytes} {rest : List Bytes}
    (h : Wired k y) (hc : AllConversing y) (hline : y.line y.srv.i = some n)
    (hp : y.peer n = some p) (hup : p.up = frame :: rest)
    (hy' : (y.put n { p with up := rest }).visit k (.request frame beyond) = some y') :
    Wired k y' ∧ AllConversing y' := by
  have hp₁ : Peer.Orderly { p with up := rest } := by
    refine ⟨(h.orderly n p hp).valid, fun hwait => ?_⟩
    exact absurd hline (h.not_line hp hwait _)
  have h₁ : Wired k (y.put n { p with up := rest }) := h.put hp hp₁ rfl
  obtain ⟨s', sent, hv, hbooks, hact, rfl⟩ := visit_cases h₁ hy'
  obtain ⟨hen, -⟩ := Server.visit_eq_some.mp hv
  have howner : y.srv.registry.owner y.srv.i = some y.srv.requester :=
    owner_requester h.books ⟨hen.2.1, hen.2.2.1, hen.2.2.2⟩
  obtain ⟨m, hm, rfl, hnext⟩ := (hc _ n p _ hline hp howner).answered hup
  obtain ⟨code, hans, hh⟩ := handled_request ((h.orderly n p hp).valid m hm) howner
    (fun T hT => topics_of_subs hT) hact
  refine ⟨h₁.after hbooks fun fd id hid => ?_, ?_⟩
  · rw [hh.owner] at hid
    exact h.has_line fd id hid
  · intro fd n' q id hfd hq hid
    replace hid : y.srv.registry.owner fd = some id := by
      rw [← hh.owner]
      exact hid
    obtain ⟨p', hp', rfl⟩ := Option.map_eq_some_iff.mp hq
    rw [peer_put] at hp'
    split_ifs at hp' with heq
    · -- the subscriber whose request it was
      subst heq
      obtain rfl := Option.some.inj hp'
      obtain rfl := h.one_line fd y.srv.i _ hfd hline
      obtain rfl : y.srv.requester = id := Option.some.inj (howner.symm.trans hid)
      refine hnext _ _ _ _ code ?_ hh fun hzero => topicStr_eq_key hzero beyond
      rw [codes_contentsFor, hans]
      simp [System.put, hline]
    · -- another one, with another id
      have hne : id ≠ y.srv.requester := by
        rintro rfl
        obtain rfl := eq_of_owner h.books howner hid
        exact heq (Option.some.inj (hfd.symm.trans hline))
      refine (hc fd n' p' id hfd hp' hid).after (hh.others id hne) fun a ha hto => ?_
      rw [hans] at ha
      obtain rfl := List.mem_singleton.mp ha
      exact heq (Option.some.inj (hto.symm.trans hline))

end Visits

/-! ### Runs -/

section Runs

variable {k : Sockets} {y y' : System} {mv : Move}

theorem sound_move (h : Wired k y) (hc : AllConversing y) (hy' : y.move k mv = some y') :
    Wired k y' ∧ AllConversing y' := by
  cases mv with
  | launch n id =>
    simp only [System.move] at hy'
    split at hy'
    · rename_i hnone
      obtain rfl := Option.some.inj hy'
      exact ⟨h.launch hnone id, hc.launch h hnone _⟩
    · cases hy'
  | types n input beyond =>
    simp only [System.move, Option.bind_eq_bind, Option.bind_eq_some_iff] at hy'
    obtain ⟨p, hp, p', hp', hy'⟩ := hy'
    obtain rfl := Option.some.inj hy'
    have hord := (h.orderly n p hp).types hp'
    rcases types_cases hp' with rfl | ⟨sent, -, rfl⟩
    · exact ⟨h.put hp hord rfl, hc.put hp fun _ _ hconv => hconv⟩
    · exact ⟨h.put hp hord rfl, hc.put hp fun _ _ hconv => hconv.asks sent⟩
  | hears n padding beyond =>
    simp only [System.move, Option.bind_eq_bind, Option.bind_eq_some_iff] at hy'
    obtain ⟨p, hp, p', hp', hy'⟩ := hy'
    obtain rfl := Option.some.inj hy'
    exact ⟨h.put hp ((h.orderly n p hp).hears hp') (hears_cases hp').2.1,
      hc.put hp fun _ _ hconv => hconv.hears hp'⟩
  | select ready => exact sound_quiet h hc hy' fun _ => trivial
  | skip => exact sound_quiet h hc hy' fun _ => trivial
  | datagram msg ip port beyond => exact sound_quiet h hc hy' fun _ => trivial
  | accept n newFd beyond =>
    simp only [System.move, Option.bind_eq_bind, Option.bind_eq_some_iff] at hy'
    obtain ⟨p, hp, hy'⟩ := hy'
    split at hy'
    · rename_i frame rest hwait hup
      obtain ⟨htold, hdown, id, hasked⟩ := (h.orderly n p hp).waiting hwait
      obtain ⟨-, rfl⟩ := List.cons.inj (hup.symm.trans hasked)
      obtain ⟨⟨s', sent⟩, hv, -⟩ := Option.map_eq_some_iff.mp hy'
      have hfree := owner_newFd h hv
      have hord : (p.accept (p.asked.map FromTcp.bytes)).Orderly :=
        ⟨(h.orderly n p hp).valid, fun hc => nomatch hc⟩
      have h₁ := h.connect hp hwait rfl hord hfree
      have hc₁ := hc.connect h hp hwait (p.accept (p.asked.map FromTcp.bytes)) hfree
      by_cases hframe : frame = []
      · -- no id: the descriptor is forgotten
        subst hframe
        exact sound_quiet h₁ hc₁ hy' fun _ => trivial
      · have hpeer : ((y.put n (p.accept (p.asked.map FromTcp.bytes))).connect n newFd).peer n =
            some (p.accept (p.asked.map FromTcp.bytes)) := (peer_put n).trans (if_pos rfl)
        exact sound_arrive h₁ hc₁ hpeer (Function.update_self _ _ _) rfl htold hdown hframe hy'
    · cases hy'
  | serve beyond =>
    simp only [System.move, Option.bind_eq_bind, Option.bind_eq_some_iff] at hy'
    obtain ⟨n, hline, p, hp, hy'⟩ := hy'
    split at hy'
    · rename_i frame rest hup
      exact sound_serve h hc hline hp hup hy'
    · split_ifs at hy'
      exact sound_quiet h hc hy' fun _ => trivial

theorem sound_start (k : Sockets) :
    Wired k (System.start k) ∧ AllConversing (System.start k) := by
  refine ⟨⟨descriptors_start k, ?_, ?_, ?_, ?_⟩, ?_⟩
  · exact fun _ _ hline => nomatch hline
  · exact fun _ _ _ hline => nomatch hline
  · intro fd id hid
    rw [System.start, registry_start] at hid
    cases hid
  · exact fun _ _ hp => nomatch hp
  · exact fun _ _ _ _ hline => nomatch hline

theorem sound_reachable (h : Reachable (System.Next k) (System.start k) y) :
    Wired k y ∧ AllConversing y := by
  have hstep : ∀ y mv y', Wired k y ∧ AllConversing y → System.Next k y mv y' →
      Wired k y' ∧ AllConversing y' := fun _ _ _ hs hnext => sound_move hs.1 hs.2 hnext
  exact h.invariant hstep (sound_start k)

/-- The log of a conversation is what has been handled. -/
theorem Conversing.log_eq {r : Registry} {id : Bytes} {p : Peer} (h : Conversing r id p) :
    (p.told ++ p.codes).length + p.up.length = p.asked.length ∧
      ((∀ m ∈ p.asked, 0 ∈ m.topic.toList) → ∀ T b, verdict p.log T = some b →
        ((id, T) ∈ r.subs ↔ b = true)) := by
  obtain ⟨handled, pending, hasked, hup, htold, -, hview⟩ := h
  have hlog : p.log = handled := by
    rw [Peer.log, htold, hasked, ← List.append_nil (handled.map Prod.snd),
      List.zip_append (by simp), List.zip_nil_right, List.append_nil, List.zip_map']
    exact List.map_id handled
  refine ⟨?_, hlog ▸ hview⟩
  rw [htold, hup, hasked]
  simp

/-- **The subscriber and the server agree**, whatever has been sent, handled and read in
whatever order.  Every request of a connected subscriber is on its way or has one answer, that
has been read or is on its way; and if the answers are paired with the requests in order, the
server holds a subscription exactly if the last answer on its topic says so. -/
theorem agreement (k : Sockets) {y : System} (h : Reachable (System.Next k) (System.start k) y)
    {fd n : ℕ} {p : Peer} {id : Bytes} (hline : y.line fd = some n) (hp : y.peer n = some p)
    (hid : y.srv.socketOf id = some fd) :
    (p.told ++ p.codes).length + p.up.length = p.asked.length ∧
      ((∀ m ∈ p.asked, 0 ∈ m.topic.toList) → ∀ T b, verdict p.log T = some b →
        ((copyOf y.srv.topics T id).isSome ↔ b = true)) := by
  obtain ⟨hw, hc⟩ := sound_reachable h
  exact (hc fd n p id hline hp ((ownerOf_eq_some_iff hw.books).mpr hid)).log_eq

/-- A subscriber `a` is let in on descriptor 6, and is about to be heard. -/
def oneRequest : List Move :=
  [.launch 0 [0x61], .select {5}, .skip, .skip, .skip, .skip, .accept 0 6 [], .skip,
    .types 0 (ascii "subscribe t 0\n".toList) [], .select {6}, .skip, .skip, .skip, .skip, .skip]

/-- `a` has subscribed to `t`, and has been told so. -/
theorem agreement_one_client : ∃ (y : System) (p : Peer), y.line 6 = some 0 ∧
    y.peer 0 = some p ∧ p.told = [subscribedCode] ∧ p.codes = [] ∧ p.up = [] ∧
      ∀ T b, verdict p.log T = some b → ((copyOf y.srv.topics T [0x61]).isSome ↔ b = true) := by
  have hrun : ((System.start someSockets).exec someSockets
      (oneRequest ++ [.serve [], .hears 0 ⟨0, 0, 0⟩ []])).map (fun y =>
        (y.line 6, y.peer 0, y.srv.socketOf [0x61])) =
      some (some 0, some ⟨true, true, [], [], [⟨1, topicField [0x74], 0⟩], [subscribedCode]⟩,
        some 6) := by
    decide +kernel
  obtain ⟨y, hy, hview⟩ := Option.map_eq_some_iff.mp hrun
  simp only [Prod.mk.injEq] at hview
  obtain ⟨hline, hp, hid⟩ := hview
  refine ⟨y, _, hline, hp, rfl, rfl, rfl, ?_⟩
  refine (agreement someSockets ⟨_, System.run_of_exec hy⟩ hline hp hid).2 fun m hm => ?_
  obtain rfl := List.mem_singleton.mp hm
  decide

/-- At most one answer is transmitted to a request, on the descriptor it came from. -/
theorem sent_of_request {s s' : Server} {sent : List Transmission} {frame beyond : Bytes}
    (hframe : frame ≠ []) (ho : Outcome k s (.request frame beyond) s' sent) :
    sent = [] ∨ ∃ code, sent = [⟨s.i, .opcode code⟩] := by
  cases ho with
  | disconnected => exact absurd rfl hframe
  | unknown => exact Or.inl rfl
  | unsubscribed | noTopic | alreadySub | subscribed => exact Or.inr ⟨_, rfl⟩

/-- A visit for a request that fits does not fail. -/
theorem exists_visit_request {s : Server} (h : Descriptors k s) {m : FromTcp} {beyond : Bytes}
    (hen : s.Enabled k (.request m.bytes beyond)) :
    ∃ s' sent, s.visit k (.request m.bytes beyond) = some (s', sent) := by
  obtain ⟨c, hcon, -⟩ := requester_spec h ⟨hen.2.1, hen.2.2.1, hen.2.2.2⟩
  obtain ⟨⟨topics, connected, sent⟩, hr⟩ :=
    msgFromClient_ok s.i (.ofBytes m.bytes) beyond s.topics hcon
  have hlen : ¬ 52 < m.bytes.length := by simp [length_bytes]
  have hframe : m.bytes ≠ [] := List.cons_ne_nil _ _
  have hok : ∃ r, s.step (.request m.bytes beyond) = .ok r := by
    rw [Server.requester] at hr
    simp only [Server.step, Server.onRequest, if_neg hlen, if_neg hframe, hr, Except.map]
    exact ⟨_, rfl⟩
  obtain ⟨⟨s', sent⟩, hstep⟩ := hok
  exact ⟨s', sent, Server.visit_eq_some.mpr ⟨hen, hstep⟩⟩

/-- **Every request is served.**  When the loop comes to the descriptor of a subscriber that
still runs and has a request on its way, no `send` of the visit can fail; the visit succeeds,
takes that request, puts one answer on the connection and nothing on any other, and the
subscriptions are changed for the requester and the topic only, as the answer says. -/
theorem served (k : Sockets) {y : System} (h : Reachable (System.Next k) (System.start k) y)
    {n : ℕ} {p : Peer} {frame beyond : Bytes} {rest : List Bytes}
    (hline : y.line y.srv.i = some n) (hp : y.peer n = some p) (hup : p.up = frame :: rest)
    (hrun : p.running = true) (hen : y.srv.Enabled k (.request frame beyond)) :
    ∃ y' m code, y.move k (.serve beyond) = some y' ∧ y.Safe k (.serve beyond) ∧
      m ∈ p.asked ∧ frame = m.bytes ∧ y'.line = y.line ∧
      (∀ n', y'.peer n' = if n' = n then some { p with
          up := rest
          down := p.down ++ [.opcode code] } else y.peer n') ∧
      Handled y.srv.registry y'.srv.registry y.srv.i y.srv.requester (m.topicStr beyond) code := by
  obtain ⟨hw, hc⟩ := sound_reachable h
  have howner : y.srv.registry.owner y.srv.i = some y.srv.requester :=
    owner_requester hw.books ⟨hen.2.1, hen.2.2.1, hen.2.2.2⟩
  obtain ⟨m, hm, rfl, -⟩ := (hc _ n p _ hline hp howner).answered hup
  obtain ⟨s', sent, hv⟩ := exists_visit_request hw.books hen
  obtain ⟨code, hans, hh⟩ := handled_request ((hw.orderly n p hp).valid m hm) howner
    (fun T hT => topics_of_subs hT) (act_of_visit hw.books hv)
  -- the answer is all that is transmitted
  have hsent : sent = [⟨y.srv.i, .opcode code⟩] := by
    rcases sent_of_request (List.cons_ne_nil _ _) (outcome_of_visit hv) with rfl | ⟨code', rfl⟩
    · cases hans
    · cases hans
      rfl
  have hevent : y.event (.serve beyond) = some (.request m.bytes beyond) := by
    rw [System.event, hline, Option.bind_some, hp, Option.map_some, hup]
    rfl
  refine ⟨(y.put n { p with up := rest }).after s' sent, m, code, ?_, fun t ht => ?_, hm, rfl,
    rfl, fun n' => ?_, hh⟩
  · simp only [System.move, hline, hp, hup, Option.bind_eq_bind, Option.bind_some]
    exact Option.map_eq_some_iff.mpr ⟨_, hv, rfl⟩
  · -- the answer goes to a subscriber that is still there
    rw [System.sends_eq hevent hv, hsent] at ht
    obtain rfl := List.mem_singleton.mp ht
    rintro ⟨n', p', hline', hp', hleft⟩
    obtain rfl := Option.some.inj (hline.symm.trans hline')
    obtain rfl := Option.some.inj (hp.symm.trans hp')
    rw [hrun] at hleft
    cases hleft
  · subst hsent
    rw [peer_after, peer_put]
    split_ifs with heq
    · subst heq
      simp [contentsFor, System.put, hline, Peer.receives]
    · have hnone : contentsFor (y.put n { p with up := rest }).line n'
          [⟨y.srv.i, .opcode code⟩] = [] := by
        simp [contentsFor, System.put, hline, Ne.symm heq]
      rw [hnone]
      exact (congrArg (Option.map · _) (funext receives_nil)).trans Option.map_id'

/-- `a` asks for `t`. -/
theorem served_one_client : ∃ (y y' : System) (code : Opcode),
    Reachable (System.Next someSockets) (System.start someSockets) y ∧
      y.move someSockets (.serve []) = some y' ∧
        (y'.peer 0).map Peer.down = some [.opcode code] := by
  have hrun : ((System.start someSockets).exec someSockets oneRequest).map (fun y =>
        (y.srv.i, y.line 6, y.peer 0,
          decide (y.srv.Enabled someSockets (.request (requestFor 1 0x74 0) [])))) =
      some (6, some 0,
        some ⟨true, true, [requestFor 1 0x74 0], [], [⟨1, topicField [0x74], 0⟩], []⟩, true) := by
    decide +kernel
  obtain ⟨y, hy, hview⟩ := Option.map_eq_some_iff.mp hrun
  simp only [Prod.mk.injEq, decide_eq_true_eq] at hview
  obtain ⟨hi, hline, hp, hen⟩ := hview
  have hreach : Reachable (System.Next someSockets) (System.start someSockets) y :=
    ⟨_, System.run_of_exec hy⟩
  obtain ⟨y', m, code, hmove, -, -, -, -, hpeer, -⟩ :=
    served someSockets hreach (hi ▸ hline) hp rfl rfl hen
  exact ⟨y, y', code, hreach, hmove, by rw [hpeer]; rfl⟩

end Runs

end TemePCom.PubSub
