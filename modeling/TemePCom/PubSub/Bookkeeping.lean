/-
TemePCom/PubSub/Bookkeeping.lean

The bookkeeping of the server: which descriptors are watched, which clients are
connected, and which are saved.

The invariant has two halves.  `Descriptors` is about the sets of descriptors
and the descriptors of the connected clients, including the ones that `select`
has found ready and the loop has not visited yet; `Records` is about the three
places where client records live.
-/
import TemePCom.PubSub.ServerSpec

namespace TemePCom.PubSub

open OrdMap Runs

/-- The descriptors that are not clients'. -/
def Sockets.Listener (k : Sockets) (fd : ℕ) : Prop := fd = 0 ∨ fd = k.tcp ∨ fd = k.udp

/-- The descriptor of a connected client. -/
def Server.socketOf (s : Server) (id : Bytes) : Option ℕ :=
  s.connected[id]?.map Client.clientSocket

/-! ### The invariant -/

/-- The watched descriptors are open, within reach of the loop, and except for
the listeners those of the connected clients, one each. -/
structure Descriptors (k : Sockets) (s : Server) : Prop where
  listeners : ∀ fd, k.Listener fd → fd ∈ s.readFds
  isOpen : s.readFds ⊆ s.openFds
  le_fdmax : ∀ fd ∈ s.readFds, fd ≤ s.fdmax
  one_le : 1 ≤ s.i
  pending : ∀ fd ∈ s.tmpFds, s.i ≤ fd → fd ∈ s.readFds
  watched : ∀ id fd, s.socketOf id = some fd → fd ∈ s.readFds ∧ ¬ k.Listener fd
  inj : ∀ id id' fd, s.socketOf id = some fd → s.socketOf id' = some fd → id = id'
  surj : ∀ fd ∈ s.readFds, ¬ k.Listener fd → ∃ id, s.socketOf id = some fd

/-- Every record is filed under its id, no client is both connected and saved,
the connected have missed nothing, and the saved have SF topics. -/
structure Records (s : Server) : Prop where
  connected_id : KeysAreIds s.connected
  saved_id : KeysAreIds s.saved
  copy_id : ∀ T id c, copyOf s.topics T id = some c → c.id = id
  disjoint : ∀ id : Bytes, s.connected[id]? = none ∨ s.saved[id]? = none
  missed_nil : ∀ (id : Bytes) (c : Client), s.connected[id]? = some c → c.missed = []
  sf_ne_nil : ∀ (id : Bytes) (c : Client), s.saved[id]? = some c → c.sf ≠ []

variable {k : Sockets} {s s' : Server} {e : Event} {sent : List Transmission}

theorem socketOf_eq {id : Bytes} {c : Client} (h : s.connected[id]? = some c) :
    s.socketOf id = some c.clientSocket := by
  rw [Server.socketOf, h, Option.map_some]

theorem exists_of_socketOf {id : Bytes} {fd : ℕ} (h : s.socketOf id = some fd) :
    ∃ c, s.connected[id]? = some c ∧ c.clientSocket = fd :=
  Option.map_eq_some_iff.mp h

theorem descriptors_start (k : Sockets) : Descriptors k (Server.start k) where
  listeners := by
    rintro fd (rfl | rfl | rfl) <;> simp [Server.start]
  isOpen := Finset.subset_union_left
  le_fdmax := by
    intro fd hfd
    simp only [Server.start, Finset.mem_insert, Finset.mem_singleton] at hfd
    rcases hfd with rfl | rfl | rfl <;> simp [Server.start]
  one_le := Nat.le_add_left 1 _
  pending := fun _ hfd => absurd hfd (Finset.notMem_empty _)
  watched := by
    intro id fd hfd
    simp [Server.start, Server.socketOf] at hfd
  inj := by
    intro id id' fd hfd
    simp [Server.start, Server.socketOf] at hfd
  surj := by
    intro fd hfd hnot
    simp only [Server.start, Finset.mem_insert, Finset.mem_singleton] at hfd
    exact absurd hfd hnot

theorem records_start (k : Sockets) : Records (Server.start k) where
  connected_id := fun _ _ h => by cases lookup_empty.symm.trans h
  saved_id := fun _ _ h => by cases lookup_empty.symm.trans h
  copy_id := fun _ _ _ h => by
    obtain ⟨topicMap, hmap, -⟩ := exists_topic h
    cases lookup_empty.symm.trans hmap
  disjoint := fun _ => Or.inl lookup_empty
  missed_nil := fun _ _ h => by cases lookup_empty.symm.trans h
  sf_ne_nil := fun _ _ h => by cases lookup_empty.symm.trans h

/-! ### Descriptors -/

/-- A step that neither watches nor forgets a descriptor. -/
theorem Descriptors.congr (h : Descriptors k s) (hread : s'.readFds = s.readFds)
    (htmp : s'.tmpFds = s.tmpFds) (hopen : s.openFds ⊆ s'.openFds)
    (hmax : s'.fdmax = s.fdmax) (hi : s'.i = s.i + 1)
    (hsock : ∀ id, s'.socketOf id = s.socketOf id) : Descriptors k s' where
  listeners := by
    rw [hread]
    exact h.listeners
  isOpen := by
    rw [hread]
    exact h.isOpen.trans hopen
  le_fdmax := by
    rw [hread, hmax]
    exact h.le_fdmax
  one_le := by omega
  pending := by
    rw [htmp, hread]
    exact fun fd hfd hle => h.pending fd hfd (by omega)
  watched := by
    intro id fd
    rw [hsock, hread]
    exact h.watched id fd
  inj := by
    intro id id' fd
    rw [hsock, hsock]
    exact h.inj id id' fd
  surj := by
    rw [hread]
    intro fd hfd hnot
    obtain ⟨id, hid⟩ := h.surj fd hfd hnot
    exact ⟨id, by rw [hsock, hid]⟩

/-- The client whose descriptor the loop visits is found. -/
theorem requester_spec (h : Descriptors k s) (hvisit : s.Visiting k) :
    ∃ c, s.connected[s.requester]? = some c ∧ c.clientSocket = s.i := by
  have hlistener : ¬ k.Listener s.i := by
    rintro (h0 | htcp | hudp)
    · exact absurd h.one_le (by omega)
    · exact hvisit.ne_tcp htcp
    · exact hvisit.ne_udp hudp
  -- found ready at the last `select` and not visited since: still watched
  obtain ⟨id, hid⟩ := h.surj s.i (h.pending s.i hvisit.ready le_rfl) hlistener
  obtain ⟨c, hc, hfd⟩ := exists_of_socketOf hid
  exact findId_spec ⟨id, c, hc, hfd⟩

theorem admitted_clientSocket (saved : ClientMap) (newFd : ℕ) (id : Bytes) :
    (admitted saved newFd id).clientSocket = newFd := by
  unfold admitted
  rcases saved[id]? with - | c <;> rfl

/-- The descriptors of the connected clients after one has been let in. -/
theorem socketOf_welcome {newFd : ℕ} {id id' : Bytes} {fd : ℕ}
    (hnew : s.connected[id]? = none) :
    (s.welcome newFd id).1.next.socketOf id' = some fd ↔
      (id = id' ∧ newFd = fd) ∨ s.socketOf id' = some fd := by
  rw [Server.socketOf, connected_welcome]
  by_cases hid : id = id'
  · subst hid
    rw [lookup_insertIfNew_self hnew, Option.map_some, admitted_clientSocket, Server.socketOf,
      hnew]
    simp
  · rw [lookup_insertIfNew_of_ne hid, Server.socketOf]
    simp [hid]

/-- A subscription leaves the descriptors alone. -/
theorem socketOf_subscribe {connected : ClientMap} {T id id' : Bytes} {flag : Prop}
    [Decidable flag] :
    (if flag then connected.modify id (·.addSf T) else connected)[id']?.map
      Client.clientSocket = connected[id']?.map Client.clientSocket := by
  rw [lookup_subscribe, Option.map_map]
  refine congrArg (Option.map · _) (funext fun c => ?_)
  show (if flag ∧ id = id' then c.addSf T else c).clientSocket = c.clientSocket
  split_ifs <;> rfl

/-- Letting a client in. -/
theorem Descriptors.welcome {newFd : ℕ} {id : Bytes} (h : Descriptors k s)
    (hfd : newFd ∉ s.openFds) (hnew : s.connected[id]? = none) :
    Descriptors k (s.welcome newFd id).1.next := by
  have hread : newFd ∉ s.readFds := fun hmem => hfd (h.isOpen hmem)
  have hlistener : ¬ k.Listener newFd := fun hl => hread (h.listeners newFd hl)
  have hsock : ∀ {id' : Bytes} {fd : ℕ}, (s.welcome newFd id).1.next.socketOf id' = some fd →
      id = id' ∧ newFd = fd ∨ s.socketOf id' = some fd ∧ fd ≠ newFd := by
    intro id' fd h'
    refine ((socketOf_welcome hnew).mp h').imp_right fun hold => ⟨hold, ?_⟩
    rintro rfl
    exact hread (h.watched id' fd hold).1
  refine ⟨?_, ?_, ?_, ?_, ?_, ?_, ?_, ?_⟩
  · intro fd hl
    rw [readFds_welcome]
    exact Finset.mem_insert_of_mem (h.listeners fd hl)
  · rw [welcome_eq]
    exact Finset.insert_subset_insert _ h.isOpen
  · intro fd hmem
    rw [readFds_welcome, Finset.mem_insert] at hmem
    rw [welcome_eq]
    rcases hmem with rfl | hmem
    · exact le_max_right _ _
    · exact (h.le_fdmax fd hmem).trans (le_max_left _ _)
  · rw [welcome_eq]
    exact Nat.le_add_left 1 _
  · intro fd hmem hle
    rw [welcome_eq] at hmem hle
    rw [readFds_welcome]
    exact Finset.mem_insert_of_mem (h.pending fd hmem (Nat.le_of_succ_le hle))
  · intro id' fd hfd'
    rw [readFds_welcome]
    rcases hsock hfd' with ⟨-, rfl⟩ | ⟨hold, -⟩
    · exact ⟨Finset.mem_insert_self _ _, hlistener⟩
    · exact ⟨Finset.mem_insert_of_mem (h.watched id' fd hold).1, (h.watched id' fd hold).2⟩
  · -- the new descriptor is nobody else's: it was not watched
    intro id₁ id₂ fd h₁ h₂
    rcases hsock h₁ with ⟨rfl, rfl⟩ | ⟨hold₁, hne⟩
    · rcases hsock h₂ with ⟨rfl, -⟩ | ⟨-, hne⟩
      · rfl
      · exact absurd rfl hne
    · rcases hsock h₂ with ⟨-, rfl⟩ | ⟨hold₂, -⟩
      · exact absurd rfl hne
      · exact h.inj id₁ id₂ fd hold₁ hold₂
  · intro fd hmem hnot
    rw [readFds_welcome, Finset.mem_insert] at hmem
    rcases hmem with rfl | hmem
    · exact ⟨id, (socketOf_welcome hnew).mpr (Or.inl ⟨rfl, rfl⟩)⟩
    · obtain ⟨id', hid'⟩ := h.surj fd hmem hnot
      exact ⟨id', (socketOf_welcome hnew).mpr (Or.inr hid')⟩

/-- The client whose descriptor the loop visits is forgotten, and no other. -/
theorem socketOf_disconnect {t : Server} {id : Bytes} {fd : ℕ} (h : Descriptors k s)
    (hvisit : s.Visiting k) (ht : t.connected = s.connected.erase s.requester) :
    t.socketOf id = some fd ↔ s.socketOf id = some fd ∧ fd ≠ s.i := by
  obtain ⟨c, hcon, hfd⟩ := requester_spec h hvisit
  have hself : s.socketOf s.requester = some s.i := hfd ▸ socketOf_eq hcon
  by_cases hid : s.requester = id
  · subst hid
    have hnone : t.socketOf s.requester = none := by
      rw [Server.socketOf, ht, lookup_erase_self]
      rfl
    rw [hnone, hself]
    constructor
    · rintro ⟨⟩
    · rintro ⟨heq, hne⟩
      exact absurd (Option.some.inj heq).symm hne
  · have hsame : t.socketOf id = s.socketOf id := by
      rw [Server.socketOf, ht, lookup_erase_of_ne hid]
      rfl
    rw [hsame]
    refine ⟨fun hsome => ⟨hsome, ?_⟩, And.left⟩
    rintro rfl
    exact hid (h.inj _ _ _ hself hsome)

/-- Forgetting the client whose descriptor the loop visits. -/
theorem Descriptors.disconnect {saved : ClientMap} (h : Descriptors k s)
    (hvisit : s.Visiting k) : Descriptors k { s with
      connected := s.connected.erase s.requester
      saved := saved
      readFds := s.readFds.erase s.i
      openFds := s.openFds.erase s.i }.next := by
  obtain ⟨c, hcon, hfd⟩ := requester_spec h hvisit
  have hself : s.socketOf s.requester = some s.i := hfd ▸ socketOf_eq hcon
  have hlistener := (h.watched _ _ hself).2
  set t : Server := { s with
    connected := s.connected.erase s.requester
    saved := saved
    readFds := s.readFds.erase s.i
    openFds := s.openFds.erase s.i }.next with ht
  have hsock : ∀ id fd, t.socketOf id = some fd ↔ s.socketOf id = some fd ∧ fd ≠ s.i :=
    fun id fd => socketOf_disconnect h hvisit rfl
  refine ⟨?_, ?_, ?_, ?_, ?_, ?_, ?_, ?_⟩
  · exact fun fd hl => Finset.mem_erase.mpr ⟨fun heq => hlistener (heq ▸ hl), h.listeners fd hl⟩
  · exact Finset.erase_subset_erase _ h.isOpen
  · exact fun fd hmem => h.le_fdmax fd (Finset.mem_of_mem_erase hmem)
  · exact Nat.le_add_left 1 _
  · -- what is pending lies behind the descriptor that goes
    intro fd hmem hle
    have hlt : s.i < fd := hle
    exact Finset.mem_erase.mpr ⟨hlt.ne', h.pending fd hmem hlt.le⟩
  · intro id fd hsome
    obtain ⟨hold, hne⟩ := (hsock id fd).mp hsome
    exact ⟨Finset.mem_erase.mpr ⟨hne, (h.watched id fd hold).1⟩, (h.watched id fd hold).2⟩
  · intro id id' fd hsome hsome'
    exact h.inj id id' fd ((hsock id fd).mp hsome).1 ((hsock id' fd).mp hsome').1
  · intro fd hmem hnot
    obtain ⟨hne, hold⟩ := Finset.mem_erase.mp hmem
    obtain ⟨id, hid⟩ := h.surj fd hold hnot
    exact ⟨id, (hsock id fd).mpr ⟨hid, hne⟩⟩

theorem descriptors_step (h : Descriptors k s) (ho : Outcome k s e s' sent) :
    Descriptors k s' := by
  cases ho with
  | select hready =>
    exact ⟨h.listeners, h.isOpen, h.le_fdmax, le_rfl, fun fd hfd _ => hready hfd, h.watched,
      h.inj, h.surj⟩
  | welcomed _ hfd hnew => exact h.welcome hfd hnew
  | disconnected hvisit _ => exact h.disconnect hvisit
  | leaked => exact h.congr rfl rfl (Finset.subset_insert _ _) rfl rfl fun _ => rfl
  | subscribed _ _ _ hcon =>
    exact h.congr rfl rfl Finset.Subset.rfl rfl rfl fun _ => socketOf_subscribe
  | skip | newTopic | published | duplicate | unsubscribed | noTopic | alreadySub | unknown =>
    exact h.congr rfl rfl Finset.Subset.rfl rfl rfl fun _ => rfl

/-! ### Records -/

/-- A step that leaves the connected and the saved clients alone, and adds no
copy of a record to a topic. -/
theorem Records.congr (h : Records s) (hcon : s'.connected = s.connected)
    (hsaved : s'.saved = s.saved)
    (hcopy : ∀ T id c, copyOf s'.topics T id = some c → copyOf s.topics T id = some c) :
    Records s' where
  connected_id := hcon ▸ h.connected_id
  saved_id := hsaved ▸ h.saved_id
  copy_id := fun T id c hc => h.copy_id T id c (hcopy T id c hc)
  disjoint := by
    rw [hcon, hsaved]
    exact h.disjoint
  missed_nil := hcon ▸ h.missed_nil
  sf_ne_nil := hsaved ▸ h.sf_ne_nil

theorem admitted_id (h : KeysAreIds s.saved) (newFd : ℕ) (id : Bytes) :
    (admitted s.saved newFd id).id = id := by
  unfold admitted
  rcases hc : s.saved[id]? with - | c
  · rfl
  · exact h id c hc

theorem admitted_missed (saved : ClientMap) (newFd : ℕ) (id : Bytes) :
    (admitted saved newFd id).missed = [] := by
  unfold admitted
  rcases saved[id]? with - | c <;> rfl

theorem Records.welcome (h : Records s) (newFd : ℕ) (id : Bytes) :
    Records (s.welcome newFd id).1.next := by
  have hcon : ∀ {id' : Bytes} {c : Client},
      (s.welcome newFd id).1.next.connected[id']? = some c →
      s.connected[id']? = some c ∨ (id = id' ∧ admitted s.saved newFd id = c) := by
    intro id' c hc
    rw [connected_welcome] at hc
    rcases lookup_of_insertIfNew hc with hold | ⟨rfl, rfl, -⟩
    · exact Or.inl hold
    · exact Or.inr ⟨rfl, rfl⟩
  have hsaved : ∀ {id' : Bytes} {c : Client},
      (s.welcome newFd id).1.next.saved[id']? = some c → s.saved[id']? = some c := by
    intro id' c hc
    rw [saved_welcome] at hc
    exact (lookup_of_erase hc).2
  refine ⟨?_, ?_, ?_, ?_, ?_, ?_⟩
  · intro id' c hc
    rcases hcon hc with hold | ⟨rfl, rfl⟩
    · exact h.connected_id id' c hold
    · exact admitted_id h.saved_id newFd id
  · exact fun id' c hc => h.saved_id id' c (hsaved hc)
  · rw [topics_welcome]
    exact h.copy_id
  · intro id'
    rw [connected_welcome, saved_welcome]
    by_cases hid : id = id'
    · exact Or.inr (hid ▸ lookup_erase_self)
    · exact (h.disjoint id').imp (lookup_insertIfNew_of_ne hid).trans
        (lookup_erase_of_ne hid).trans
  · intro id' c hc
    rcases hcon hc with hold | ⟨rfl, rfl⟩
    · exact h.missed_nil id' c hold
    · exact admitted_missed s.saved newFd id
  · exact fun id' c hc => h.sf_ne_nil id' c (hsaved hc)

theorem Records.disconnect {c : Client} {id : Bytes} {readFds openFds : Finset ℕ}
    (h : Records s) (hcon : s.connected[id]? = some c) : Records { s with
      connected := s.connected.erase id
      saved := if c.sf = [] then s.saved else s.saved.insertIfNew id c
      readFds := readFds
      openFds := openFds }.next := by
  have hsaved : ∀ {id' : Bytes} {c' : Client},
      (if c.sf = [] then s.saved else s.saved.insertIfNew id c)[id']? = some c' →
      s.saved[id']? = some c' ∨ (id = id' ∧ c = c' ∧ c.sf ≠ []) := by
    intro id' c' hc'
    split_ifs at hc' with hsf
    · exact Or.inl hc'
    · rcases lookup_of_insertIfNew hc' with hold | ⟨rfl, rfl, -⟩
      · exact Or.inl hold
      · exact Or.inr ⟨rfl, rfl, hsf⟩
  refine ⟨?_, ?_, h.copy_id, ?_, ?_, ?_⟩
  · exact fun id' c' hc' => h.connected_id id' c' (lookup_of_erase hc').2
  · intro id' c' hc'
    rcases hsaved hc' with hold | ⟨rfl, rfl, -⟩
    · exact h.saved_id id' c' hold
    · exact h.connected_id id c hcon
  · intro id'
    by_cases hid : id = id'
    · exact Or.inl (hid ▸ lookup_erase_self)
    · refine (h.disjoint id').imp (lookup_erase_of_ne hid).trans fun hnone => ?_
      show (if c.sf = [] then s.saved else s.saved.insertIfNew id c)[id']? = none
      split_ifs
      · exact hnone
      · exact (lookup_insertIfNew_of_ne hid).trans hnone
  · exact fun id' c' hc' => h.missed_nil id' c' (lookup_of_erase hc').2
  · intro id' c' hc'
    rcases hsaved hc' with hold | ⟨-, rfl, hsf⟩
    · exact h.sf_ne_nil id' c' hold
    · exact hsf

theorem Records.subscribe {c : Client} {T id : Bytes} {sf : Prop} [Decidable sf]
    (h : Records s) (hcopy : copyOf s.topics T id = none) (hcon : s.connected[id]? = some c) :
    Records { s with
      topics := (withTopic s.topics T).modify T (·.insertIfNew id c)
      connected := if sf then s.connected.modify id (·.addSf T) else s.connected }.next := by
  have hsub : ∀ {id' : Bytes} {c' : Client},
      (if sf then s.connected.modify id (·.addSf T) else s.connected)[id']? = some c' →
      ∃ c₀, s.connected[id']? = some c₀ ∧ c'.id = c₀.id ∧ c'.missed = c₀.missed := by
    intro id' c' hc'
    rw [lookup_subscribe] at hc'
    obtain ⟨c₀, hc₀, rfl⟩ := Option.map_eq_some_iff.mp hc'
    refine ⟨c₀, hc₀, ?_, ?_⟩ <;> split_ifs <;> rfl
  refine ⟨?_, h.saved_id, ?_, ?_, ?_, h.sf_ne_nil⟩
  · intro id' c' hc'
    obtain ⟨c₀, hc₀, hid, -⟩ := hsub hc'
    exact hid.trans (h.connected_id id' c₀ hc₀)
  · intro T' id' c' hc'
    replace hc' := (copyOf_subscribe hcopy).symm.trans hc'
    split_ifs at hc' with hid
    · obtain rfl := Option.some.inj hc'
      exact hid.2 ▸ h.connected_id id c hcon
    · exact h.copy_id T' id' c' hc'
  · intro id'
    refine (h.disjoint id').imp_left fun hnone => ?_
    exact lookup_subscribe.trans (by rw [hnone, Option.map_none])
  · intro id' c' hc'
    obtain ⟨c₀, hc₀, -, hmissed⟩ := hsub hc'
    exact hmissed.trans (h.missed_nil id' c₀ hc₀)

/-- Publishing changes at most the missed queues of the saved. -/
theorem Records.publish {forClient : CliMsg} {T : Bytes} {topicMap : ClientMap}
    (h : Records s) (htopic : s.topics[T]? = some topicMap) : Records { s with
      saved := (sendNewMsg topicMap forClient s.connected s.saved T).2 }.next := by
  have hids : KeysAreIds topicMap := fun id c hc =>
    h.copy_id T id c ((copyOf_eq htopic).trans hc)
  refine ⟨h.connected_id, ?_, h.copy_id, ?_, h.missed_nil, ?_⟩
  · intro id c hc
    obtain ⟨c₀, hc₀, hid, -⟩ := saved_of_sendNewMsg hids hc
    exact hid.trans (h.saved_id id c₀ hc₀)
  · intro id
    refine (h.disjoint id).imp_right fun hnone => ?_
    rcases hc : (sendNewMsg topicMap forClient s.connected s.saved T).2[id]? with - | c
    · exact hc
    · obtain ⟨c₀, hc₀, -⟩ := saved_of_sendNewMsg hids hc
      cases hnone.symm.trans hc₀
  · intro id c hc
    obtain ⟨c₀, hc₀, -, hsf⟩ := saved_of_sendNewMsg hids hc
    exact hsf ▸ h.sf_ne_nil id c₀ hc₀

theorem records_step (h : Records s) (ho : Outcome k s e s' sent) : Records s' := by
  cases ho with
  | newTopic _ =>
    exact h.congr rfl rfl fun T id c hc => copyOf_newTopic.symm.trans hc
  | published htopic => exact h.publish htopic
  | welcomed _ _ _ => exact h.welcome _ _
  | disconnected _ hcon => exact h.disconnect hcon
  | unsubscribed _ _ _ =>
    refine h.congr rfl rfl fun T id c hc => ?_
    replace hc := copyOf_erase.symm.trans hc
    split_ifs at hc
    exact hc
  | alreadySub _ _ _ =>
    exact h.congr rfl rfl fun T id c hc => copyOf_withTopic.symm.trans hc
  | subscribed _ _ hcopy hcon => exact h.subscribe hcopy hcon
  | select | skip | leaked | duplicate | noTopic | unknown =>
    exact h.congr rfl rfl fun _ _ _ hc => hc

/-! ### Runs -/

theorem next_outcome (h : Server.Next k s e s') : ∃ sent, Outcome k s e s' sent := by
  obtain ⟨sent, hvisit⟩ := h
  exact ⟨sent, outcome_of_visit hvisit⟩

theorem invariants_step (h : Descriptors k s ∧ Records s) (hnext : Server.Next k s e s') :
    Descriptors k s' ∧ Records s' := by
  obtain ⟨sent, ho⟩ := next_outcome hnext
  exact ⟨descriptors_step h.1 ho, records_step h.2 ho⟩

theorem invariants_reachable (h : Reachable (Server.Next k) (Server.start k) s) :
    Descriptors k s ∧ Records s :=
  h.invariant (fun _ _ _ hs hnext => invariants_step hs hnext)
    ⟨descriptors_start k, records_start k⟩

/-- A request of a connected client is answered. -/
theorem msgFromClient_ok (sockfd : ℕ) (msg : FromTcp) (beyond : Bytes) (topics : Topics)
    {id : Bytes} {connected : ClientMap} {c : Client} (hcon : connected[id]? = some c) :
    ∃ r, msgFromClient sockfd msg beyond topics connected id = .ok r := by
  unfold msgFromClient
  split_ifs
  · exact ⟨_, rfl⟩
  · rcases hcopy : copyOf topics (msg.topicStr beyond) id with - | c'
    · exact ⟨_, subscribe_of_none hcopy hcon⟩
    · exact ⟨_, subscribe_of_copy hcopy⟩
  · exact ⟨_, rfl⟩

/-- No visit throws: the requester of every request is connected. -/
theorem step_ne_outOfRange (h : Descriptors k s) (hen : s.Enabled k e) :
    s.step e ≠ .error .outOfRange := by
  intro herr
  cases e with
  | select ready => cases herr
  | skip => cases herr
  | datagram msg ip port beyond =>
    simp only [Server.step, Server.onDatagram] at herr
    split at herr
    · cases herr
    · split_ifs at herr
      · cases herr
      · cases herr
  | accept newFd frame beyond =>
    simp only [Server.step, Server.onAccept] at herr
    split_ifs at herr
    · cases herr
    · cases herr
    · split at herr <;> cases herr
  | request frame beyond =>
    -- both `at`s are at the id of the client that has been found
    obtain ⟨c, hcon, -⟩ := requester_spec h ⟨hen.2.1, hen.2.2.1, hen.2.2.2⟩
    obtain ⟨r, hr⟩ := msgFromClient_ok s.i (.ofBytes frame) beyond s.topics hcon
    rw [Server.requester] at hcon hr
    simp only [Server.step, Server.onRequest, clientDisconnected, hcon, hr] at herr
    split_ifs at herr <;> cases herr

/-- The clients' descriptors among the watched ones are those of the connected
clients, every one of them of one client. -/
def OneDescriptorEach (k : Sockets) (s : Server) : Prop :=
  Set.BijOn (fun p : Bytes × Client => p.2.clientSocket) {p | s.connected[p.1]? = some p.2}
    {fd | fd ∈ s.readFds ∧ fd ≠ 0 ∧ fd ≠ k.tcp ∧ fd ≠ k.udp}

theorem Descriptors.oneDescriptorEach (h : Descriptors k s) : OneDescriptorEach k s := by
  refine ⟨?_, ?_, ?_⟩
  · rintro ⟨id, c⟩ hc
    obtain ⟨hmem, hnot⟩ := h.watched id _ (socketOf_eq hc)
    simp only [Sockets.Listener, not_or] at hnot
    exact ⟨hmem, hnot⟩
  · rintro ⟨id, c⟩ hc ⟨id', c'⟩ hc' heq
    obtain rfl := h.inj id id' c.clientSocket (socketOf_eq hc)
      ((socketOf_eq hc').trans (congrArg some heq.symm))
    obtain rfl : c = c' := Option.some.inj (Eq.trans (Eq.symm hc) hc')
    rfl
  · rintro fd ⟨hmem, hnot⟩
    obtain ⟨id, hid⟩ := h.surj fd hmem (by simpa only [Sockets.Listener, not_or] using hnot)
    obtain ⟨c, hc, hfd⟩ := exists_of_socketOf hid
    exact ⟨(id, c), hc, hfd⟩

/-- What holds of the server's books. -/
structure Bookkept (k : Sockets) (s : Server) : Prop where
  /-- The clients' descriptors are in bijection with the connected clients. -/
  descriptors : OneDescriptorEach k s
  /-- No client is both connected and saved. -/
  disjoint : ∀ id : Bytes, id ∉ s.connected ∨ id ∉ s.saved
  /-- Every key is the id in its record. -/
  keys : KeysAreIds s.connected ∧ KeysAreIds s.saved ∧
    ∀ (T : Bytes) (topicMap : ClientMap), s.topics[T]? = some topicMap → KeysAreIds topicMap
  /-- The connected clients have missed nothing. -/
  missed : ∀ (id : Bytes) (c : Client), s.connected[id]? = some c → c.missed = []
  /-- The saved clients have SF topics. -/
  sf : ∀ (id : Bytes) (c : Client), s.saved[id]? = some c → c.sf ≠ []
  /-- The client a request comes from is found. -/
  found : ∀ frame beyond, s.Enabled k (.request frame beyond) →
    ∃ c, s.connected[findId s.connected s.i]? = some c ∧ c.clientSocket = s.i
  /-- `map::at` does not throw. -/
  inRange : ∀ e, s.Enabled k e → s.step e ≠ .error .outOfRange

/-- **The bookkeeping of the server** holds in every reachable state. -/
theorem bookkeeping (k : Sockets) (s : Server)
    (h : Reachable (Server.Next k) (Server.start k) s) : Bookkept k s := by
  obtain ⟨hdesc, hrec⟩ := invariants_reachable h
  refine ⟨hdesc.oneDescriptorEach, ?_, ⟨hrec.connected_id, hrec.saved_id, ?_⟩, hrec.missed_nil,
    hrec.sf_ne_nil, ?_, fun e hen => step_ne_outOfRange hdesc hen⟩
  · intro id
    rw [not_mem_iff, not_mem_iff]
    exact hrec.disjoint id
  · intro T topicMap htopic id c hc
    exact hrec.copy_id T id c ((copyOf_eq htopic).trans hc)
  · intro frame beyond hen
    exact requester_spec hdesc ⟨hen.2.1, hen.2.2.1, hen.2.2.2⟩

/-- The sockets of a process that is started with the standard streams. -/
def someSockets : Sockets where
  lost := 3
  tcp := 5
  udp := 4
  inherited := {1, 2}
  tcp_ne_udp := by decide
  tcp_ne_stdin := by decide
  udp_ne_stdin := by decide
  lost_ne_tcp := by decide
  lost_ne_udp := by decide

/-- One pass of the loop up to `fdmax`, in which only descriptor `fd` is ready. -/
def pass (fd fdmax : ℕ) (e : Event) : List Event :=
  .select {fd} :: List.replicate (fd - 1) .skip ++ e :: List.replicate (fdmax - fd) .skip

/-- `a` subscribes to `t` with store-and-forward and leaves, and `b` gets its descriptor. -/
def twoClients : List Event :=
  pass 5 6 (.accept 6 [0x61] []) ++
    pass 6 6 (.request (1 :: 0x74 :: List.replicate 49 0 ++ [1]) []) ++
    pass 6 6 (.request [] []) ++ pass 5 6 (.accept 6 [0x62] [])

/-- Then `a` is saved, and `b` is connected on 6. -/
theorem bookkeeping_two_clients : ∃ s,
    (Server.start someSockets).exec someSockets twoClients = some s ∧
      ([0x61] : Bytes) ∈ s.saved ∧ findId s.connected 6 = [0x62] ∧ Bookkept someSockets s := by
  have hrun : (((Server.start someSockets).exec someSockets twoClients).any fun s =>
      s.saved.contains [0x61] && findId s.connected 6 == [0x62]) = true := by
    decide +kernel
  obtain ⟨s, hs, hcheck⟩ := (Option.any_eq_true _ _).mp hrun
  obtain ⟨hsaved, hfound⟩ := (Bool.and_eq_true _ _).mp hcheck
  exact ⟨s, hs, hsaved, eq_of_beq hfound, bookkeeping someSockets s ⟨_, Server.run_of_exec hs⟩⟩

end TemePCom.PubSub
