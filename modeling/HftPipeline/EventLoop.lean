import HftPipeline.Retransmission

/-!
# The count of connections

The event loop of the server over whole runs of batches. An event names the client it is for
by its descriptor, and an earlier event of the same batch may have closed that client.
-/
namespace HftPipeline

namespace RetransmitServer

/-- The entry of a descriptor has an open socket. -/
def isOpen (s : RetransmitServer) (fd : Nat) : Bool :=
  match s.connectionBuffers[fd]? with
  | some client => client.connection.socket.isSome
  | none => false

def openEntries (s : RetransmitServer) : Nat :=
  s.connectionBuffers.countP fun client => client.connection.socket.isSome

/-- `accept` returns descriptors that are not in use. -/
def FreshAccepts : List Accept → RetransmitServer → Prop
  | [], _ => True
  | .accepted fd nonblocking registered :: accepts, s =>
    fd ≠ s.socketFd ∧ s.isOpen fd = false ∧
      FreshAccepts accepts (if nonblocking && registered then s.adopt fd else s)
  | _ :: accepts, s => FreshAccepts accepts s

end RetransmitServer

/-- The server in its loop: the events of the batch still to be handled, and the descriptors
whose clients were closed since the batch was returned and not accepted again. -/
structure EventLoop where
  server : RetransmitServer
  pending : List KEvent
  closed : List Nat
  running : Bool

/-- `kevent` returns a batch, or the next event of the batch is handled. -/
inductive LoopTurn where
  | poll (events : List KEvent)
  | next

namespace EventLoop

def start (socketFd : Nat) : EventLoop := ⟨.init socketFd, [], [], true⟩

def step (l : EventLoop) : LoopTurn → Option EventLoop
  | .poll events =>
    match l.pending with
    | [] => some { l with pending := events, closed := [] }
    | _ :: _ => some l
  | .next =>
    match l.running, l.pending with
    | true, event :: events => do
      let (running, server) ← l.server.handleEvent event
      let closed := (event.ident :: l.closed).filter fun fd => fd ≠ server.socketFd && !server.isOpen fd
      return ⟨server, events, closed, running⟩
    | _, _ => some l

/-- A state property and a property of the turns taken hold all along a run. -/
def Throughout (P : EventLoop → Prop) (Q : EventLoop → LoopTurn → Prop) : EventLoop → List LoopTurn → Prop
  | l, [] => P l
  | l, turn :: turns => P l ∧ Q l turn ∧ ∀ l', l.step turn = some l' → Throughout P Q l' turns

/-- What the kernel guarantees: an event is for the listener or for a client that is open when
the batch is returned, and new descriptors are not in use. -/
def Delivers (l : EventLoop) : LoopTurn → Prop
  | .poll events => ∀ event ∈ events, event.ident = l.server.socketFd ∨ l.server.isOpen event.ident = true
  | .next => ∀ event events, l.pending = event :: events → event.ident = l.server.socketFd →
    l.server.FreshAccepts event.accepts

/-- The event is not for a client that an earlier event of the batch has closed. -/
def Spares (l : EventLoop) : LoopTurn → Prop
  | .poll _ => True
  | .next => ∀ event events, l.pending = event :: events → event.ident ∉ l.closed

/-- One connection for the listener and one for each open entry, and not too many. -/
def Counted (l : EventLoop) : Prop :=
  l.running = true → l.server.currentConnections.toNat = 1 + l.server.openEntries ∧
    l.server.currentConnections ≤ maxTotalConnections

/-- An event of a client is handled on an open entry, and no assertion fails. -/
def Applies (l : EventLoop) : LoopTurn → Prop
  | .poll _ => True
  | .next => l.running = true → ∀ event events, l.pending = event :: events →
    event.ident ≠ l.server.socketFd →
      l.server.isOpen event.ident = true ∧ (l.server.handleEvent event).isSome = true

end EventLoop

/-! ## One client -/

/-- What is true of every entry between events. -/
def SavedConnection.Ready (client : SavedConnection) : Prop :=
  (∃ got, client.connection.Awaits client.connection.socket got ∧ client.request = none) ∨
  ∃ packet last bytes, packet < last ∧ client.connection.Carries client.connection.socket bytes ∧
    client.connection.status = .partialSend ∧ client.request = some ⟨packet, last⟩

theorem SavedConnection.Ready.of_cleared {client : SavedConnection} {socket : Option Nat}
    (h : client.connection.Cleared socket) (hrequest : client.request = none) : client.Ready :=
  Or.inl ⟨[], Or.inl ⟨⟨rfl, h.length, h.status, h.head, h.tail⟩, rfl⟩, hrequest⟩

theorem SavedConnection.Ready.length {client : SavedConnection} (h : client.Ready) :
    client.connection.buffer.length = EncodedMessage.maxWireSize := by
  rcases h with ⟨_, ⟨hcleared, -⟩ | hreceives, -⟩ | ⟨_, _, _, -, hcarries, -⟩
  · exact hcleared.length
  · exact hreceives.length
  · exact hcarries.length

/-- With a new socket. -/
def SavedConnection.connected (client : SavedConnection) (fd : Nat) : SavedConnection :=
  { client with connection := { client.connection with socket := some fd } }

theorem SavedConnection.Ready.connected {client : SavedConnection} (h : client.Ready) (fd : Nat) :
    (client.connected fd).Ready := by
  rcases h with ⟨got, ⟨hc, hgot⟩ | hr, hrequest⟩ | ⟨packet, last, bytes, hlast, hs, hstatus, hrequest⟩
  · exact Or.inl ⟨got, Or.inl ⟨⟨rfl, hc.length, hc.status, hc.head, hc.tail⟩, hgot⟩, hrequest⟩
  · exact Or.inl ⟨got, Or.inr ⟨rfl, hr.length, hr.status, hr.head, hr.tail, hr.short, hr.buffer⟩, hrequest⟩
  · exact Or.inr ⟨packet, last, bytes, hlast, ⟨rfl, hs.length, hs.status, hs.head, hs.tail, hs.buffer⟩,
      hstatus, hrequest⟩

/-- The entry may be used again, and its socket is as before or closed. -/
def Handled.Leaves (socket : Option Nat) (h : Handled) : Prop :=
  h.client.Ready ∧ h.client.connection.socket = if h.closed then none else socket

theorem Answered.leaves {bytes : Nat → List UInt8} {socket : Option Nat} {last : UInt64} {first : Nat}
    {base : List UInt8} {chunks : List (List UInt8)} {h : Handled}
    (hanswered : Answered bytes socket last first base chunks h) : h.Leaves socket := by
  cases hanswered with
  | done hclosed hconnection hrequest _ _ =>
    refine ⟨.of_cleared hconnection hrequest, ?_⟩
    rw [hclosed]
    exact hconnection.socket
  | blocked packet hclosed _ hlast hconnection hstatus hrequest _ _ =>
    refine ⟨Or.inr ⟨packet, last, bytes packet.toNat, hlast, ?_, hstatus, hrequest⟩, ?_⟩
    · rw [hconnection.socket]
      exact hconnection
    · rw [hclosed]
      exact hconnection.socket
  | closed hclosed hconnection hrequest _ =>
    refine ⟨.of_cleared hconnection hrequest, ?_⟩
    rw [hclosed]
    exact hconnection.socket

theorem handleRequest_leaves (event : KEvent) {client : SavedConnection} (h : client.Ready)
    (hopen : client.connection.socket.isSome) :
    ∃ handled, handleRequest event.context client (event.socket client) = some handled ∧
      handled.Leaves client.connection.socket := by
  rcases h with ⟨got, hawaits, hrequest⟩ | ⟨packet, last, bytes, hlast, hcarries, hstatus, hrequest⟩
  · obtain ⟨handled, hhandled, hattended⟩ :=
      handleRequest_awaiting hopen event.context (event.socket client) hawaits hrequest
    refine ⟨handled, hhandled, ?_⟩
    cases hattended with
    | waiting got' _ hclosed hconnection hrequest' _ _ =>
      refine ⟨Or.inl ⟨got', Or.inr ?_, hrequest'⟩, ?_⟩
      · rw [hconnection.socket]
        exact hconnection
      · rw [hclosed]
        exact hconnection.socket
    | closed _ hclosed hconnection hrequest' _ =>
      refine ⟨.of_cleared hconnection hrequest', ?_⟩
      rw [hclosed]
      exact hconnection.socket
    | answered request chunks _ _ hanswered =>
      exact (hanswered _ (cacheGives_cachedBytes event.context.cache _ _)).leaves
  · -- the packet in progress is in the buffer, whatever the cache holds by now
    have hself : Function.update (cachedBytes event.context.cache) packet.toNat bytes packet.toNat = bytes :=
      Function.update_self _ _ _
    have hcarries' : client.connection.Carries client.connection.socket
        (Function.update (cachedBytes event.context.cache) packet.toNat bytes packet.toNat) := by
      rw [hself]
      exact hcarries
    have hhanded : (event.socket client).handed = [] ++
        (Function.update (cachedBytes event.context.cache) packet.toNat bytes packet.toNat).take
          client.connection.tail := by
      rw [hself, List.nil_append]
      conv_rhs => rw [← hcarries.buffer, List.take_take, Nat.min_eq_left hcarries.tail]
      rfl
    obtain ⟨handled, hhandled, -, hanswered⟩ := handleRequest_sending hopen event.context (event.socket client)
      hlast hcarries' hstatus hrequest hhanded (by
        intro number m hnumber hlast' hm
        rw [Function.update_of_ne (by omega)]
        exact cacheGives_cachedBytes event.context.cache _ _ number m hnumber hlast' hm)
    exact ⟨handled, hhandled, hanswered.leaves⟩

/-! ## The entries of the server -/

namespace RetransmitServer

variable {s : RetransmitServer} {fd : Nat} {client : SavedConnection}

structure Good (s : RetransmitServer) : Prop where
  entries : ∀ client ∈ s.connectionBuffers, client.Ready
  counted : s.currentConnections.toNat = 1 + s.openEntries
  bounded : s.currentConnections ≤ maxTotalConnections

theorem isOpen_eq_true (h : s.isOpen fd = true) :
    ∃ client, s.connectionBuffers[fd]? = some client ∧ client.connection.socket.isSome := by
  rw [isOpen] at h
  split at h
  · rename_i client hclient
    exact ⟨client, hclient, h⟩
  · cases h

theorem isOpen_of_getElem? (h : s.connectionBuffers[fd]? = some client) :
    s.isOpen fd = client.connection.socket.isSome := by
  rw [isOpen, h]

/-- One entry is replaced. -/
theorem openEntries_set (hclient : s.connectionBuffers[fd]? = some client) (client' : SavedConnection) :
    (s.connectionBuffers.set fd client').countP (fun client => client.connection.socket.isSome) =
      s.openEntries - client.connection.socket.isSome.toNat + client'.connection.socket.isSome.toNat := by
  obtain ⟨hlt, hget⟩ := List.getElem?_eq_some_iff.mp hclient
  rw [List.countP_set hlt, hget, openEntries]
  cases client.connection.socket <;> cases client'.connection.socket <;> rfl

theorem openEntries_pos (hclient : s.connectionBuffers[fd]? = some client)
    (hopen : client.connection.socket.isSome) : 0 < s.openEntries :=
  List.countP_pos_iff.mpr ⟨client, List.mem_of_getElem? hclient, hopen⟩

theorem isOpen_set_of_ne (s : RetransmitServer) {fd' : Nat} (hne : fd' ≠ fd) (client : SavedConnection) :
    (match (s.connectionBuffers.set fd client)[fd']? with
      | some client => client.connection.socket.isSome
      | none => false) = s.isOpen fd' := by
  rw [List.getElem?_set_ne hne.symm, isOpen]

theorem Good.settle (h : s.Good) (hclient : s.connectionBuffers[fd]? = some client)
    (hopen : client.connection.socket.isSome) {client' : SavedConnection} {closed : Bool} (hready : client'.Ready)
    (hsocket : client'.connection.socket = if closed then none else client.connection.socket) :
    (s.settle fd client' closed).Good := by
  have hcount := openEntries_set hclient client'
  have hpos := openEntries_pos hclient hopen
  have hbefore := h.counted
  have hentries : ∀ client ∈ (s.settle fd client' closed).connectionBuffers, client.Ready := by
    intro c hc
    rcases List.mem_or_eq_of_mem_set hc with hold | hnew
    · exact h.entries c hold
    · rw [hnew]
      exact hready
  cases closed with
  | false =>
    refine ⟨hentries, ?_, h.bounded⟩
    show s.currentConnections.toNat = 1 + (s.connectionBuffers.set fd client').countP _
    rw [hcount, hsocket]
    simp only [Bool.false_eq_true, if_false, hopen, Bool.toNat_true]
    omega
  | true =>
    have hone : (1 : UInt64) ≤ s.currentConnections := by
      show (1 : UInt64).toNat ≤ s.currentConnections.toNat
      rw [UInt64.toNat_one]
      omega
    have hless : (s.currentConnections - 1).toNat = s.currentConnections.toNat - 1 := by
      rw [UInt64.toNat_sub_of_le _ _ hone, UInt64.toNat_one]
    refine ⟨hentries, ?_, ?_⟩
    · show (s.currentConnections - 1).toNat = 1 + (s.connectionBuffers.set fd client').countP _
      rw [hcount, hsocket, hless]
      simp only [if_true, hopen, Bool.toNat_true, Option.isSome_none, Bool.toNat_false]
      omega
    · show (s.currentConnections - 1).toNat ≤ maxTotalConnections.toNat
      have hbounded : s.currentConnections.toNat ≤ maxTotalConnections.toNat := h.bounded
      omega

/-! ## New connections -/

/-- With room for the entry of a descriptor. -/
def grown (s : RetransmitServer) (fd : Nat) : RetransmitServer :=
  { s with
    connectionBuffers := s.connectionBuffers ++ List.replicate (fd + 1 - s.connectionBuffers.length) .new }

theorem exists_grown_entry (s : RetransmitServer) (fd : Nat) :
    ∃ client, (s.grown fd).connectionBuffers[fd]? = some client := by
  have hlt : fd < (s.grown fd).connectionBuffers.length := by
    rw [grown, List.length_append, List.length_replicate]
    omega
  exact ⟨_, List.getElem?_eq_getElem hlt⟩

/-- The entries that are added are closed. -/
theorem isOpen_grown (s : RetransmitServer) (fd fd' : Nat) : (s.grown fd).isOpen fd' = s.isOpen fd' := by
  rcases Nat.lt_or_ge fd' s.connectionBuffers.length with hlt | hge
  · rw [isOpen, grown, List.getElem?_append_left hlt, isOpen]
  · rw [isOpen, grown, List.getElem?_append_right hge, isOpen, List.getElem?_eq_none hge, List.getElem?_replicate]
    split
    · rename_i client hclient
      split at hclient
      · cases hclient
        rfl
      · cases hclient
    · rfl

theorem openEntries_grown (s : RetransmitServer) (fd : Nat) : (s.grown fd).openEntries = s.openEntries := by
  have hnew : SavedConnection.new.connection.socket.isSome = false := rfl
  rw [openEntries, grown, List.countP_append, List.countP_replicate, hnew]
  rfl

theorem Good.grown (h : s.Good) (fd : Nat) : (s.grown fd).Good := by
  refine ⟨?_, ?_, h.bounded⟩
  · intro client hclient
    rcases List.mem_append.mp hclient with hold | hnew
    · exact h.entries client hold
    · rw [List.eq_of_mem_replicate hnew]
      exact .of_cleared ⟨rfl, List.length_replicate, rfl, rfl, rfl⟩ rfl
  · rw [openEntries_grown]
    exact h.counted

theorem adopt_eq (hclient : (s.grown fd).connectionBuffers[fd]? = some client) :
    s.adopt fd =
      { s with
        connectionBuffers := (s.grown fd).connectionBuffers.set fd (client.connected fd)
        currentConnections := s.currentConnections + 1 } := by
  have hmodify := List.modify_eq_set_getElem? (fun client : SavedConnection => client.connected fd) fd
    (s.grown fd).connectionBuffers
  rw [hclient] at hmodify
  rw [adopt]
  congr 1

theorem isOpen_adopt (s : RetransmitServer) {fd' : Nat} (h : s.isOpen fd' = true) :
    (s.adopt fd).isOpen fd' = true := by
  obtain ⟨client, hclient⟩ := s.exists_grown_entry fd
  rw [adopt_eq hclient]
  by_cases heq : fd' = fd
  · rw [heq, isOpen, List.getElem?_set_self (List.getElem?_eq_some_iff.mp hclient).1]
    rfl
  · rw [← h, ← isOpen_grown s fd fd']
    exact isOpen_set_of_ne _ heq _

theorem Good.adopt (h : s.Good) (hclosed : s.isOpen fd = false)
    (hroom : s.currentConnections < maxTotalConnections) : (s.adopt fd).Good := by
  obtain ⟨client, hclient⟩ := s.exists_grown_entry fd
  have hgood := h.grown fd
  have hsocket : client.connection.socket.isSome = false := by
    rw [← isOpen_of_getElem? hclient, isOpen_grown]
    exact hclosed
  have hcount := openEntries_set hclient (client.connected fd)
  rw [hsocket, openEntries_grown] at hcount
  have hroom' : s.currentConnections.toNat < maxTotalConnections.toNat := hroom
  have hmore : (s.currentConnections + 1).toNat = s.currentConnections.toNat + 1 := by
    rw [UInt64.toNat_add, UInt64.toNat_one]
    have : maxTotalConnections.toNat = 25 := rfl
    omega
  rw [adopt_eq hclient]
  refine ⟨?_, ?_, ?_⟩
  · intro c hc
    rcases List.mem_or_eq_of_mem_set hc with hold | hnew
    · exact hgood.entries c hold
    · rw [hnew]
      exact (hgood.entries client (List.mem_of_getElem? hclient)).connected fd
  · show (s.currentConnections + 1).toNat =
      1 + ((s.grown fd).connectionBuffers.set fd (client.connected fd)).countP _
    rw [hcount, hmore, h.counted]
    show _ = 1 + (s.openEntries - 0 + 1)
    omega
  · show (s.currentConnections + 1).toNat ≤ maxTotalConnections.toNat
    omega

/-- The listener stays, and no client is closed. -/
theorem handleNewConnections_spec (accepts : List Accept) {s : RetransmitServer} (h : s.Good)
    (hfresh : s.FreshAccepts accepts) :
    (handleNewConnections accepts s).2.Good ∧ (handleNewConnections accepts s).2.socketFd = s.socketFd ∧
      ∀ fd, s.isOpen fd = true → (handleNewConnections accepts s).2.isOpen fd = true := by
  induction accepts generalizing s with
  | nil => exact ⟨h, rfl, fun _ hopen => hopen⟩
  | cons accept accepts ih =>
    by_cases hfull : maxTotalConnections ≤ s.currentConnections
    · have hstay : handleNewConnections (accept :: accepts) s = (true, s) := if_pos hfull
      rw [hstay]
      exact ⟨h, rfl, fun _ hopen => hopen⟩
    · simp only [handleNewConnections, hfull, if_false]
      cases accept with
      | wouldBlock => exact ⟨h, rfl, fun _ hopen => hopen⟩
      | failed => exact ⟨h, rfl, fun _ hopen => hopen⟩
      | aborted => exact ih h hfresh
      | accepted fd nonblocking registered =>
        obtain ⟨-, hclosed, hrest⟩ := hfresh
        by_cases husable : (nonblocking && registered) = true
        · rw [if_pos husable] at hrest
          simp only [husable, if_true]
          obtain ⟨hgood, hlistener, hkept⟩ := ih (h.adopt hclosed (UInt64.not_le.mp hfull)) hrest
          exact ⟨hgood, hlistener, fun fd' hopen => hkept fd' (s.isOpen_adopt hopen)⟩
        · rw [if_neg husable] at hrest
          simp only [husable]
          exact ih h hrest

/-! ## One event -/

theorem isOpen_settle (s : RetransmitServer) {fd' : Nat} (hne : fd' ≠ fd) (client : SavedConnection)
    (closed : Bool) : (s.settle fd client closed).isOpen fd' = s.isOpen fd' :=
  isOpen_set_of_ne s hne client

/-- An event of an open client. -/
theorem handleEvent_client (h : s.Good) (event : KEvent) (hident : event.ident ≠ s.socketFd)
    (hopen : s.isOpen event.ident = true) :
    ∃ client closed, s.handleEvent event = some (true, s.settle event.ident client closed) ∧
      (s.settle event.ident client closed).Good := by
  obtain ⟨client, hclient, hsocket⟩ := isOpen_eq_true hopen
  have hready := h.entries client (List.mem_of_getElem? hclient)
  rw [handleEvent, if_neg hident, hclient]
  cases herror : event.error with
  | true =>
    obtain ⟨closed, k, hnotify, hcleared, hrequest⟩ := notifyAndClose_closes event.context .clientConnection
      (event.socket client) hsocket hready.length
    refine ⟨closed, true, ?_, h.settle hclient hsocket (.of_cleared hcleared hrequest) hcleared.socket⟩
    simp only [hnotify, if_true, Option.bind_eq_bind, Option.bind_some]
    rfl
  | false =>
    obtain ⟨handled, hhandled, hleaves, hafter⟩ := handleRequest_leaves event hready hsocket
    refine ⟨handled.client, handled.closed, ?_, h.settle hclient hsocket hleaves hafter⟩
    simp only [hhandled, Bool.false_eq_true, if_false, Option.bind_eq_bind, Option.bind_some]
    rfl

/-- An event closes at most the client that it is for. -/
theorem handleEvent_spec (h : s.Good) (event : KEvent)
    (happlies : event.ident ≠ s.socketFd → s.isOpen event.ident = true)
    (hfresh : event.ident = s.socketFd → s.FreshAccepts event.accepts) :
    ∃ running s', s.handleEvent event = some (running, s') ∧ s'.socketFd = s.socketFd ∧ s'.Good ∧
      ∀ fd, s.isOpen fd = true → s'.isOpen fd = true ∨ fd = event.ident := by
  by_cases hident : event.ident = s.socketFd
  · rw [handleEvent, if_pos hident]
    cases event.error with
    | true => exact ⟨false, s, rfl, rfl, h, fun _ hopen => Or.inl hopen⟩
    | false =>
      obtain ⟨hgood, hlistener, hkept⟩ := handleNewConnections_spec event.accepts h (hfresh hident)
      exact ⟨_, _, rfl, hlistener, hgood, fun fd hopen => Or.inl (hkept fd hopen)⟩
  · obtain ⟨client, closed, hevent, hgood⟩ := handleEvent_client h event hident (happlies hident)
    refine ⟨true, _, hevent, rfl, hgood, ?_⟩
    intro fd hopen
    by_cases heq : fd = event.ident
    · exact Or.inr heq
    · rw [isOpen_settle s heq]
      exact Or.inl hopen

end RetransmitServer

/-! ## Whole runs -/

namespace EventLoop

/-- What is true between any two events: an event of the batch whose client is not open any more
is one of a client that the batch has closed. -/
structure Sound (l : EventLoop) : Prop where
  good : l.server.Good
  pending : ∀ event ∈ l.pending, event.ident = l.server.socketFd ∨ l.server.isOpen event.ident = true ∨
    event.ident ∈ l.closed

theorem Sound.counted {l : EventLoop} (h : l.Sound) : l.Counted :=
  fun _ => ⟨h.good.counted, h.good.bounded⟩

theorem start_sound (socketFd : Nat) : (start socketFd).Sound := by
  refine ⟨⟨?_, rfl, show (1 : UInt64) ≤ maxTotalConnections by decide⟩, fun event hevent => by cases hevent⟩
  intro client hclient
  rw [List.eq_of_mem_replicate hclient]
  exact .of_cleared ⟨rfl, List.length_replicate, rfl, rfl, rfl⟩ rfl

theorem Sound.isOpen {l : EventLoop} (h : l.Sound) {event : KEvent} {events : List KEvent}
    (hpending : l.pending = event :: events) (hspared : event.ident ∉ l.closed)
    (hident : event.ident ≠ l.server.socketFd) : l.server.isOpen event.ident = true := by
  have hmem : event ∈ l.pending := by
    rw [hpending]
    exact List.mem_cons_self
  rcases h.pending event hmem with hlistener | hopen | hclosed
  · exact absurd hlistener hident
  · exact hopen
  · exact absurd hclosed hspared

theorem Sound.applies {l : EventLoop} (h : l.Sound) {turn : LoopTurn} (hdelivers : l.Delivers turn)
    (hspares : l.Spares turn) : l.Applies turn := by
  cases turn with
  | poll events => trivial
  | next =>
    intro _ event events hpending hident
    have hopen := h.isOpen hpending (hspares event events hpending) hident
    obtain ⟨running, s', hevent, -⟩ := RetransmitServer.handleEvent_spec h.good event (fun _ => hopen)
      (hdelivers event events hpending)
    refine ⟨hopen, ?_⟩
    rw [hevent]
    rfl

theorem Sound.step {l l' : EventLoop} (h : l.Sound) {turn : LoopTurn} (hdelivers : l.Delivers turn)
    (hspares : l.Spares turn) (hstep : l.step turn = some l') : l'.Sound := by
  cases turn with
  | poll events =>
    rw [EventLoop.step] at hstep
    split at hstep
    · cases hstep
      refine ⟨h.good, fun event hevent => ?_⟩
      rcases hdelivers event hevent with hlistener | hopen
      · exact Or.inl hlistener
      · exact Or.inr (Or.inl hopen)
    · cases hstep
      exact h
  | next =>
    rw [EventLoop.step] at hstep
    split at hstep
    · rename_i event events hrunning hpending
      obtain ⟨running, s', hevent, hlistener, hgood, hkept⟩ := RetransmitServer.handleEvent_spec h.good event
        (fun hident => h.isOpen hpending (hspares event events hpending) hident)
        (hdelivers event events hpending)
      simp only [hevent, Option.bind_eq_bind, Option.bind_some, pure, Option.some.injEq] at hstep
      rw [← hstep]
      refine ⟨hgood, ?_⟩
      intro other hother
      -- a client that this event has closed is among the closed ones from now on
      have hlost : ∀ fd ∈ event.ident :: l.closed, fd = s'.socketFd ∨ s'.isOpen fd = true ∨
          fd ∈ (event.ident :: l.closed).filter fun fd => fd ≠ s'.socketFd && !s'.isOpen fd := by
        intro fd hfd
        by_cases hlisten : fd = s'.socketFd
        · exact Or.inl hlisten
        · cases hopen : s'.isOpen fd with
          | true => exact Or.inr (Or.inl rfl)
          | false =>
            refine Or.inr (Or.inr (List.mem_filter.mpr ⟨hfd, ?_⟩))
            simp [hlisten, hopen]
      have hmem : other ∈ l.pending := by
        rw [hpending]
        exact List.mem_cons_of_mem _ hother
      rcases h.pending other hmem with hlisten | hopen | hclosed
      · exact Or.inl (hlisten.trans hlistener.symm)
      · rcases hkept _ hopen with hstill | hself
        · exact Or.inr (Or.inl hstill)
        · exact hlost _ (by rw [hself]; exact List.mem_cons_self)
      · exact hlost _ (List.mem_cons_of_mem _ hclosed)
    · cases hstep
      exact h

theorem Sound.throughout {turns : List LoopTurn} {l : EventLoop} (h : l.Sound)
    (hruns : l.Throughout (fun _ => True) (fun l turn => l.Delivers turn ∧ l.Spares turn) turns) :
    l.Throughout Counted Applies turns := by
  induction turns generalizing l with
  | nil => exact h.counted
  | cons turn turns ih =>
    obtain ⟨-, ⟨hdelivers, hspares⟩, hrest⟩ := hruns
    refine ⟨h.counted, h.applies hdelivers hspares, ?_⟩
    intro l' hstep
    exact ih (h.step hdelivers hspares hstep) (hrest l' hstep)

/-- In a run where no event is for a client that its batch has closed, the count is right and
clients are served on open entries only. -/
theorem connections_counted (socketFd : Nat) (turns : List LoopTurn)
    (hruns : (start socketFd).Throughout (fun _ => True) (fun l turn => l.Delivers turn ∧ l.Spares turn) turns) :
    (start socketFd).Throughout Counted Applies turns :=
  (start_sound socketFd).throughout hruns

/-! ## Runs that can be checked -/

instance decidableForallCons {α : Type} {p : α → Prop} [DecidablePred p] (l : List α) :
    Decidable (∀ a as, l = a :: as → p a) :=
  match l with
  | [] => isTrue nofun
  | a :: as => decidable_of_iff (p a) ⟨by rintro h _ _ ⟨⟩; exact h, fun h => h a as rfl⟩

instance decidableForallSome {α : Type} {p : α → Prop} [DecidablePred p] (o : Option α) :
    Decidable (∀ a, o = some a → p a) :=
  match o with
  | none => isTrue nofun
  | some a => decidable_of_iff (p a) ⟨by rintro h _ ⟨⟩; exact h, fun h => h a rfl⟩

instance decidableFreshAccepts : (accepts : List Accept) → (s : RetransmitServer) →
    Decidable (s.FreshAccepts accepts)
  | [], _ => isTrue trivial
  | .accepted fd nonblocking registered :: accepts, s =>
    haveI := decidableFreshAccepts accepts (if nonblocking && registered then s.adopt fd else s)
    inferInstanceAs (Decidable (_ ∧ _ ∧ RetransmitServer.FreshAccepts _ _))
  | .wouldBlock :: accepts, s => decidableFreshAccepts accepts s
  | .aborted :: accepts, s => decidableFreshAccepts accepts s
  | .failed :: accepts, s => decidableFreshAccepts accepts s

instance decidableDelivers (l : EventLoop) : (turn : LoopTurn) → Decidable (l.Delivers turn)
  | .poll events => inferInstanceAs (Decidable (∀ event ∈ events, _ ∨ _))
  | .next => decidableForallCons l.pending

instance decidableSpares (l : EventLoop) : (turn : LoopTurn) → Decidable (l.Spares turn)
  | .poll _ => isTrue trivial
  | .next => decidableForallCons l.pending

instance decidableApplies (l : EventLoop) : (turn : LoopTurn) → Decidable (l.Applies turn)
  | .poll _ => isTrue trivial
  | .next =>
    haveI : Decidable (∀ event events, l.pending = event :: events → event.ident ≠ l.server.socketFd →
        l.server.isOpen event.ident = true ∧ (l.server.handleEvent event).isSome = true) :=
      decidableForallCons l.pending
    inferInstanceAs (Decidable (l.running = true → _))

instance decidableCounted : DecidablePred Counted :=
  fun l => inferInstanceAs (Decidable (l.running = true → _ ∧ _))

instance decidableThroughout {P : EventLoop → Prop} {Q : EventLoop → LoopTurn → Prop} [DecidablePred P]
    [∀ l turn, Decidable (Q l turn)] : (turns : List LoopTurn) → (l : EventLoop) →
      Decidable (l.Throughout P Q turns)
  | [], l => inferInstanceAs (Decidable (P l))
  | turn :: turns, l =>
    haveI : DecidablePred fun l' : EventLoop => l'.Throughout P Q turns := decidableThroughout turns
    inferInstanceAs (Decidable (P l ∧ Q l turn ∧ ∀ l', l.step turn = some l' → Throughout P Q l' turns))

end EventLoop

def listenerEvent (accepts : List Accept) : KEvent :=
  ⟨3, false, accepts, ⟨cachedPair.foldl CircularCache.putItem (.new fun _ => blankSlot), blankMemory, true⟩, [],
    .failed .wouldBlock, [], .wouldBlock⟩

def clientEvent (ident : Nat) (chunks : List (List UInt8)) (sends : List Nat) (sendEnd : Errno) : KEvent :=
  { listenerEvent [] with ident, chunks, sends, sendEnd }

/-- A client with descriptor 6 connects, and sends a request of which the answer does not fit
into the socket. -/
def connectTurns : List LoopTurn :=
  [.poll [listenerEvent [.accepted 6 true true, .wouldBlock]], .next,
    .poll [clientEvent 6 [RetransmitRequest.serialize ⟨1, 3⟩] [5, 1] .wouldBlock], .next]

/-- The answer is completed in a batch in which another client connects. -/
def sparedTurns : List LoopTurn :=
  connectTurns ++
    [.poll [clientEvent 6 [] [100, 20, 20] .wouldBlock, listenerEvent [.accepted 7 true true, .wouldBlock]],
      .next, .next, .poll [clientEvent 6 [] [] .connReset, clientEvent 7 [] [] .wouldBlock], .next, .next]

/-- The client is reset, and both its read and its write event are in the batch. -/
def resetTurns : List LoopTurn :=
  connectTurns ++ [.poll [clientEvent 6 [] [] .connReset, clientEvent 6 [] [] .connReset], .next, .next]

theorem connections_counted_sparedTurns :
    (EventLoop.start 3).Throughout (fun _ => True) (fun l turn => l.Delivers turn ∧ l.Spares turn) sparedTurns ∧
      (EventLoop.start 3).Throughout EventLoop.Counted EventLoop.Applies sparedTurns :=
  ⟨by decide +kernel, EventLoop.connections_counted 3 sparedTurns (by decide +kernel)⟩

theorem connections_not_counted :
    ¬ ∀ socketFd turns, (EventLoop.start socketFd).Throughout (fun _ => True) EventLoop.Delivers turns →
      (EventLoop.start socketFd).Throughout EventLoop.Counted EventLoop.Applies turns := by
  intro h
  have happlied := h 3 resetTurns (by decide +kernel)
  exact absurd happlied (by decide +kernel)

end HftPipeline
