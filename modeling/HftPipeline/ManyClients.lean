import HftPipeline.EventLoop

/-!
# Many clients

The retransmit server with everything its clients send. The connections share one table, in which a
descriptor is used again once its client is closed. Whatever the others do, a client whose bytes
are valid requests is answered as if it were alone.
-/
namespace HftPipeline

/-- A descriptor since it was accepted: the bytes that have arrived and, of these, the chunks not yet
received; the bytes handed to the kernel and the requests received. -/
structure Peer where
  arrived : List UInt8
  chunks : List (List UInt8)
  handed : List UInt8
  received : List RetransmitRequest

def Peer.new : Peer := ⟨[], [], [], []⟩

structure ServerHost where
  server : RetransmitServer
  peers : Nat → Peer
  running : Bool

/-- Bytes of a client arrive; or there is an event of the listener, or of a client, with what the
kernel does while it is handled. The kernel has no event of a client that is closed, and accepts no
descriptor in use: such a turn changes nothing. -/
inductive HostTurn where
  | arrive (fd : Nat) (chunk : List UInt8)
  | accept (accepts : List Accept)
  | client (fd : Nat) (recvEnd : RecvEnd) (sends : List Nat) (sendEnd : Errno) (memory : MessageMemory)
    (registers : Bool)
  | clientError (fd : Nat) (sends : List Nat) (sendEnd : Errno) (memory : MessageMemory)

namespace ServerHost

def start (socketFd : Nat) : ServerHost := ⟨.init socketFd, fun _ => .new, true⟩

/-- The connection of an open client. -/
def served (h : ServerHost) (fd : Nat) (client : SavedConnection) : ServedClient :=
  ⟨client, (h.peers fd).chunks, (h.peers fd).handed, (h.peers fd).received, true, []⟩

/-- A client has been attended to. -/
def attended (h : ServerHost) (fd : Nat) (s : ServedClient) : ServerHost :=
  { h with
    server := h.server.settle fd s.client (!s.isOpen)
    peers := Function.update h.peers fd ⟨(h.peers fd).arrived, s.chunks, s.handed, s.received⟩ }

/-- A chunk of bytes has arrived. -/
def arrived (h : ServerHost) (fd : Nat) (chunk : List UInt8) : ServerHost :=
  let peer := h.peers fd
  { h with
    peers := Function.update h.peers fd
      { peer with arrived := peer.arrived ++ chunk, chunks := peer.chunks ++ [chunk] } }

/-- New connections have been accepted. -/
def accepted (h : ServerHost) (accepts : List Accept) : ServerHost :=
  let (running, server) := RetransmitServer.handleNewConnections accepts h.server
  ⟨server, fun fd => if server.isOpen fd && !h.server.isOpen fd then .new else h.peers fd, running⟩

def step (cache : RetransmitCache) (h : ServerHost) : HostTurn → Option ServerHost
  | .arrive fd chunk => if chunk = [] then some h else some (h.arrived fd chunk)
  | .accept accepts =>
    if h.running = true ∧ h.server.FreshAccepts accepts then some (h.accepted accepts) else some h
  | .client fd recvEnd sends sendEnd memory registers =>
    if h.running = true ∧ h.server.isOpen fd = true then do
      let client ← h.server.connectionBuffers[fd]?
      let s ← (h.served fd client).step cache (.event recvEnd sends sendEnd memory registers)
      return h.attended fd s
    else some h
  | .clientError fd sends sendEnd memory =>
    if h.running = true ∧ h.server.isOpen fd = true then do
      let client ← h.server.connectionBuffers[fd]?
      let (closed, k) ← notifyAndClose ⟨cache, memory, true⟩ client .clientConnection
        ⟨(h.peers fd).chunks, .closed, sends, sendEnd, (h.peers fd).handed⟩
      return h.attended fd ⟨closed, k.chunks, (h.peers fd).handed, (h.peers fd).received, false,
        k.handed.drop (h.peers fd).handed.length⟩
    else some h

def run (cache : RetransmitCache) (h : ServerHost) (turns : List HostTurn) : Option ServerHost :=
  turns.foldlM (step cache) h

end ServerHost

/-! ## One client, whatever it sends -/

/-- An open entry between events: it waits for a request, or the packet it is sending ends what was
handed to the kernel. -/
inductive SavedConnection.Handing (fd : Nat) (handed : List UInt8) (client : SavedConnection) : Prop
  | waiting (got : List UInt8) (hawaits : client.connection.Awaits (some fd) got)
      (hrequest : client.request = none)
  | sending (packet last : UInt64) (bytes base : List UInt8) (hlast : packet < last)
      (hcarries : client.connection.Carries (some fd) bytes) (hstatus : client.connection.status = .partialSend)
      (hrequest : client.request = some ⟨packet, last⟩)
      (hhanded : handed = base ++ bytes.take client.connection.tail)

/-- A closed entry, as a new connection finds it. -/
def SavedConnection.Idle (client : SavedConnection) : Prop :=
  client.connection.Cleared none ∧ client.request = none

variable {client : SavedConnection} {fd : Nat} {handed : List UInt8} {chunks : List (List UInt8)}
  {received : List RetransmitRequest}

theorem SavedConnection.Handing.socket (h : client.Handing fd handed) : client.connection.socket = some fd := by
  cases h with
  | waiting got hawaits hrequest =>
    rcases hawaits with ⟨hcleared, -⟩ | hreceives
    · exact hcleared.socket
    · exact hreceives.socket
  | sending packet last bytes base hlast hcarries hstatus hrequest hhanded => exact hcarries.socket

theorem SavedConnection.Handing.length (h : client.Handing fd handed) :
    client.connection.buffer.length = EncodedMessage.maxWireSize := by
  cases h with
  | waiting got hawaits hrequest =>
    rcases hawaits with ⟨hcleared, -⟩ | hreceives
    · exact hcleared.length
    · exact hreceives.length
  | sending packet last bytes base hlast hcarries hstatus hrequest hhanded => exact hcarries.length

/-- The client is open and goes on, or its entry may be used again. -/
def ServedClient.Left (fd : Nat) (s : ServedClient) : Prop :=
  (s.isOpen = true ∧ s.client.Handing fd s.handed) ∨ (s.isOpen = false ∧ s.client.Idle)

theorem Answered.left {bytes : Nat → List UInt8} {last : UInt64} {first : Nat} {base : List UInt8}
    {h : Handled} (hanswered : Answered bytes (some fd) last first base chunks h) :
    ServedClient.Left fd ⟨h.client, h.socket.chunks, h.streamed, received, !h.closed, h.notice⟩ := by
  cases hanswered with
  | done hclosed hconnection hrequest _ _ =>
    left
    refine ⟨by rw [hclosed]; rfl, .waiting [] (Or.inl ⟨hconnection, rfl⟩) hrequest⟩
  | blocked packet hclosed _ hlast hconnection hstatus hrequest _ hhanded =>
    left
    refine ⟨by rw [hclosed]; rfl, .sending packet last _ (base ++ stretch bytes first (packet.toNat - first)) hlast
      hconnection hstatus hrequest ?_⟩
    rw [hhanded, List.append_assoc]
  | closed hclosed hconnection hrequest _ =>
    right
    exact ⟨by rw [hclosed]; rfl, hconnection, hrequest⟩

/-- No assertion fails in an event of an open client, whatever its bytes are. -/
theorem SavedConnection.Handing.event (h : client.Handing fd handed) (cache : RetransmitCache)
    (chunks : List (List UInt8)) (received : List RetransmitRequest) (recvEnd : RecvEnd) (sends : List Nat)
    (sendEnd : Errno) (memory : MessageMemory) (registers : Bool) :
    ∃ s, ServedClient.step cache ⟨client, chunks, handed, received, true, []⟩
        (.event recvEnd sends sendEnd memory registers) = some s ∧ s.Left fd := by
  have hopen : (some fd).isSome = true := rfl
  have hstep : ∀ handled, handleRequest ⟨cache, memory, registers⟩ client
      ⟨chunks, recvEnd, sends, sendEnd, handed⟩ = some handled →
      ServedClient.step cache ⟨client, chunks, handed, received, true, []⟩
        (.event recvEnd sends sendEnd memory registers) =
      some ⟨handled.client, handled.socket.chunks, handled.streamed, received ++ handled.received.toList,
        !handled.closed, handled.notice⟩ := by
    intro handled hhandled
    simp only [ServedClient.step, if_true, hhandled, Option.bind_eq_bind, Option.bind_some, Option.pure_def]
  cases h with
  | waiting got hawaits hrequest =>
    obtain ⟨handled, hhandled, hattended⟩ := handleRequest_awaiting hopen ⟨cache, memory, registers⟩
      ⟨chunks, recvEnd, sends, sendEnd, handed⟩ hawaits hrequest
    refine ⟨_, hstep handled hhandled, ?_⟩
    cases hattended with
    | waiting got' _ hclosed hconnection hrequest' _ _ =>
      left
      exact ⟨by rw [hclosed]; rfl, .waiting got' (Or.inr hconnection) hrequest'⟩
    | closed _ hclosed hconnection hrequest' _ =>
      right
      exact ⟨by rw [hclosed]; rfl, hconnection, hrequest'⟩
    | answered request rest _ _ hanswered => exact (hanswered _ (cacheGives_cachedBytes cache _ _)).left
  | sending packet last bytes base hlast hcarries hstatus hrequest hhanded =>
    -- the packet in progress is in the buffer, whatever the cache holds by now
    have hself : Function.update (cachedBytes cache) packet.toNat bytes packet.toNat = bytes :=
      Function.update_self _ _ _
    have hgives : CacheGives cache (Function.update (cachedBytes cache) packet.toNat bytes) (packet.toNat + 1)
        last.toNat := by
      intro number m hnumber hlast' hm
      rw [Function.update_of_ne (by omega)]
      exact cacheGives_cachedBytes cache _ _ number m hnumber hlast' hm
    obtain ⟨handled, hhandled, -, hanswered⟩ := handleRequest_sending hopen ⟨cache, memory, registers⟩
      ⟨chunks, recvEnd, sends, sendEnd, handed⟩ hlast (hself.symm ▸ hcarries) hstatus hrequest
      (hself.symm ▸ hhanded) hgives
    exact ⟨_, hstep handled hhandled, hanswered.left⟩

/-! ## New connections -/

namespace RetransmitServer

variable {s : RetransmitServer}

/-- Every entry is closed and idle, or has an open socket. -/
def Orderly (s : RetransmitServer) : Prop :=
  ∀ (fd : Nat) (client : SavedConnection), s.connectionBuffers[fd]? = some client →
    client.connection.socket.isSome = false → client.Idle

/-- An entry after new connections were accepted: as it was, closed or newly accepted. -/
def Accepted (s : RetransmitServer) (fd : Nat) (client : SavedConnection) : Prop :=
  s.connectionBuffers[fd]? = some client ∨ s.isOpen fd = false ∧
    (client.Idle ∨ client.connection.Cleared (some fd) ∧ client.request = none)

theorem new_idle : SavedConnection.new.Idle := ⟨⟨rfl, List.length_replicate, rfl, rfl, rfl⟩, rfl⟩

theorem grown_entry {fd' : Nat} (h : (s.grown fd').connectionBuffers[fd]? = some client) :
    s.connectionBuffers[fd]? = some client ∨ s.isOpen fd = false ∧ client.Idle := by
  rcases Nat.lt_or_ge fd s.connectionBuffers.length with hlt | hge
  · rw [grown, List.getElem?_append_left hlt] at h
    exact Or.inl h
  · rw [grown, List.getElem?_append_right hge, List.getElem?_replicate] at h
    split at h
    · cases h
      refine Or.inr ⟨?_, new_idle⟩
      rw [isOpen, List.getElem?_eq_none hge]
    · cases h

theorem adopt_entry (hs : s.Orderly) {fd' : Nat} (hclosed : s.isOpen fd' = false)
    (h : (s.adopt fd').connectionBuffers[fd]? = some client) : s.Accepted fd client := by
  obtain ⟨old, hold⟩ := s.exists_grown_entry fd'
  rw [adopt_eq hold] at h
  by_cases heq : fd = fd'
  · subst heq
    rw [List.getElem?_set_self (List.getElem?_eq_some_iff.mp hold).1] at h
    cases h
    have hidle : old.Idle := by
      rcases grown_entry hold with hsame | ⟨-, hidle⟩
      · apply hs fd old hsame
        rw [← isOpen_of_getElem? hsame]
        exact hclosed
      · exact hidle
    obtain ⟨hcleared, hrequest⟩ := hidle
    exact Or.inr ⟨hclosed,
      Or.inr ⟨⟨rfl, hcleared.length, hcleared.status, hcleared.head, hcleared.tail⟩, hrequest⟩⟩
  · rw [List.getElem?_set_ne (Ne.symm heq)] at h
    apply (grown_entry h).imp_right
    rintro ⟨hnone, hidle⟩
    exact ⟨hnone, Or.inl hidle⟩

theorem Orderly.adopt (hs : s.Orderly) {fd' : Nat} (hclosed : s.isOpen fd' = false) : (s.adopt fd').Orderly := by
  intro fd client h hsocket
  rcases adopt_entry hs hclosed h with hsame | ⟨-, hidle | ⟨hcleared, -⟩⟩
  · exact hs fd client hsame hsocket
  · exact hidle
  · rw [hcleared.socket] at hsocket
    cases hsocket

theorem handleNewConnections_entry (accepts : List Accept) {s : RetransmitServer} (hs : s.Orderly)
    (hfresh : s.FreshAccepts accepts) {fd : Nat} {client : SavedConnection}
    (h : (handleNewConnections accepts s).2.connectionBuffers[fd]? = some client) : s.Accepted fd client := by
  induction accepts generalizing s with
  | nil => exact Or.inl h
  | cons accept accepts ih =>
    by_cases hfull : maxTotalConnections ≤ s.currentConnections
    · rw [show handleNewConnections (accept :: accepts) s = (true, s) from if_pos hfull] at h
      exact Or.inl h
    · simp only [handleNewConnections, hfull, if_false] at h
      cases accept with
      | wouldBlock => exact Or.inl h
      | failed => exact Or.inl h
      | aborted => exact ih hs hfresh h
      | accepted fd' nonblocking registered =>
        obtain ⟨-, hclosed, hrest⟩ := hfresh
        by_cases husable : (nonblocking && registered) = true
        · rw [if_pos husable] at hrest
          simp only [husable, if_true] at h
          rcases ih (hs.adopt hclosed) hrest h with hsame | ⟨hnone, hnew⟩
          · exact adopt_entry hs hclosed hsame
          · refine Or.inr ⟨?_, hnew⟩
            rw [← Bool.not_eq_true] at hnone ⊢
            exact fun hopen => hnone (s.isOpen_adopt hopen)
        · rw [if_neg husable] at hrest
          simp only [husable] at h
          exact ih hs hrest h

end RetransmitServer

/-! ## All clients -/

namespace ServerHost

variable {cached : List MessageSlot} {cache : RetransmitCache} {h h' : ServerHost}

/-- Each entry is idle or open on its own descriptor, and an open one whose bytes so far are valid
requests is served as `Serving` says. -/
structure Hosting (cached : List MessageSlot) (h : ServerHost) : Prop where
  entry : ∀ (fd : Nat) (client : SavedConnection), h.server.connectionBuffers[fd]? = some client →
    client.Idle ∨ client.Handing fd (h.peers fd).handed
  serving : ∀ (fd : Nat) (client : SavedConnection), h.server.connectionBuffers[fd]? = some client →
    client.connection.socket = some fd → ∀ requests : List RetransmitRequest,
      (∀ request ∈ requests, request.Valid cached) → (h.peers fd).arrived <+: requestBytes requests →
      Serving cached fd (h.peers fd).arrived (h.served fd client)

theorem start_hosting (cached : List MessageSlot) (socketFd : Nat) : (start socketFd).Hosting cached := by
  have hidle : ∀ (fd : Nat) (client : SavedConnection),
      (start socketFd).server.connectionBuffers[fd]? = some client → client.Idle := by
    intro fd client hclient
    rw [List.eq_of_mem_replicate (List.mem_of_getElem? hclient)]
    exact RetransmitServer.new_idle
  refine ⟨fun fd client hclient => Or.inl (hidle fd client hclient), ?_⟩
  intro fd client hclient hsocket
  rw [(hidle fd client hclient).1.socket] at hsocket
  cases hsocket

theorem Hosting.orderly (hh : h.Hosting cached) : h.server.Orderly := by
  intro fd client hclient hsocket
  rcases hh.entry fd client hclient with hidle | hhanding
  · exact hidle
  · rw [hhanding.socket] at hsocket
    cases hsocket

/-- Where an event is delivered there is an open client. -/
theorem Hosting.handing (hh : h.Hosting cached) (hopen : h.server.isOpen fd = true) :
    ∃ client, h.server.connectionBuffers[fd]? = some client ∧ client.Handing fd (h.peers fd).handed := by
  obtain ⟨client, hclient, hsocket⟩ := RetransmitServer.isOpen_eq_true hopen
  refine ⟨client, hclient, (hh.entry fd client hclient).resolve_left ?_⟩
  intro hidle
  rw [hidle.1.socket] at hsocket
  cases hsocket

/-- A client has been attended to: it is served as before or its entry may be used again. -/
theorem Hosting.attended (hh : h.Hosting cached) (hclient : h.server.connectionBuffers[fd]? = some client)
    {s : ServedClient} (hleft : s.Left fd)
    (hserving : s.isOpen = true → ∀ requests : List RetransmitRequest,
      (∀ request ∈ requests, request.Valid cached) → (h.peers fd).arrived <+: requestBytes requests →
      Serving cached fd (h.peers fd).arrived s) : (h.attended fd s).Hosting cached := by
  have hlt := (List.getElem?_eq_some_iff.mp hclient).1
  have hentry : (h.attended fd s).server.connectionBuffers[fd]? = some s.client := List.getElem?_set_self hlt
  have hother : ∀ fd', fd' ≠ fd → (h.attended fd s).server.connectionBuffers[fd']? =
      h.server.connectionBuffers[fd']? ∧ (h.attended fd s).peers fd' = h.peers fd' := by
    intro fd' hne
    exact ⟨List.getElem?_set_ne hne.symm, Function.update_of_ne hne _ _⟩
  have hpeer : (h.attended fd s).peers fd = ⟨(h.peers fd).arrived, s.chunks, s.handed, s.received⟩ :=
    Function.update_self _ _ _
  refine ⟨?_, ?_⟩
  · intro fd' client' hclient'
    by_cases heq : fd' = fd
    · subst heq
      rw [hentry] at hclient'
      cases hclient'
      rw [hpeer]
      rcases hleft with ⟨-, hhanding⟩ | ⟨-, hidle⟩
      · exact Or.inr hhanding
      · exact Or.inl hidle
    · rw [(hother fd' heq).1] at hclient'
      rw [(hother fd' heq).2]
      exact hh.entry fd' client' hclient'
  · intro fd' client' hclient' hsocket requests hvalid
    by_cases heq : fd' = fd
    · subst heq
      rw [hentry] at hclient'
      cases hclient'
      rcases hleft with ⟨hopen, -⟩ | ⟨-, hidle⟩
      · have hsame : (h.attended fd' s).served fd' s.client = { s with notice := [] } := by
          rw [served, hpeer, ← hopen]
        rw [hsame, hpeer]
        exact fun harrived => (hserving hopen requests hvalid harrived).withNotice []
      · rw [hidle.1.socket] at hsocket
        cases hsocket
    · rw [(hother fd' heq).1] at hclient'
      rw [served, (hother fd' heq).2]
      exact hh.serving fd' client' hclient' hsocket requests hvalid

theorem Hosting.arrive (hh : h.Hosting cached) (fd : Nat) {chunk : List UInt8} (hchunk : chunk ≠ []) :
    (h.arrived fd chunk).Hosting cached := by
  have hpeer : (h.arrived fd chunk).peers fd =
      { h.peers fd with
        arrived := (h.peers fd).arrived ++ chunk, chunks := (h.peers fd).chunks ++ [chunk] } :=
    Function.update_self _ _ _
  have hother : ∀ fd', fd' ≠ fd → (h.arrived fd chunk).peers fd' = h.peers fd' := by
    intro fd' hne
    exact Function.update_of_ne hne _ _
  refine ⟨?_, ?_⟩
  · intro fd' client hclient
    by_cases heq : fd' = fd
    · subst heq
      rw [hpeer]
      exact hh.entry fd' client hclient
    · rw [hother fd' heq]
      exact hh.entry fd' client hclient
  · intro fd' client hclient hsocket requests hvalid harrived
    by_cases heq : fd' = fd
    · subst heq
      rw [served, hpeer]
      rw [hpeer] at harrived
      exact (hh.serving fd' client hclient hsocket requests hvalid
        ((List.prefix_append _ _).trans harrived)).arrive hchunk
    · rw [served, hother fd' heq]
      rw [hother fd' heq] at harrived
      exact hh.serving fd' client hclient hsocket requests hvalid harrived

/-- A descriptor that is accepted again starts anew, and the open ones are as before. -/
theorem Hosting.accept (hh : h.Hosting cached) {accepts : List Accept} (hfresh : h.server.FreshAccepts accepts) :
    (h.accepted accepts).Hosting cached := by
  have hentry : ∀ (fd : Nat) (client : SavedConnection),
      (h.accepted accepts).server.connectionBuffers[fd]? = some client → h.server.Accepted fd client := by
    intro fd client hclient
    exact RetransmitServer.handleNewConnections_entry accepts hh.orderly hfresh hclient
  have hopened : ∀ (fd : Nat) (client : SavedConnection),
      (h.accepted accepts).server.connectionBuffers[fd]? = some client → client.connection.socket = some fd →
      h.server.isOpen fd = false → (h.accepted accepts).peers fd = .new := by
    intro fd client hclient hsocket hclosed
    have hopen : (h.accepted accepts).server.isOpen fd = true := by
      rw [RetransmitServer.isOpen_of_getElem? hclient, hsocket]
      rfl
    apply if_pos
    rw [hclosed, Bool.not_false, Bool.and_true]
    exact hopen
  have hkept : ∀ fd, h.server.isOpen fd = true → (h.accepted accepts).peers fd = h.peers fd := by
    intro fd hopen
    apply if_neg
    rw [hopen, Bool.not_true, Bool.and_false]
    exact Bool.false_ne_true
  -- an entry that was open has its client as before, and any other is idle or new
  have hcases : ∀ (fd : Nat) (client : SavedConnection),
      (h.accepted accepts).server.connectionBuffers[fd]? = some client →
      client.Idle ∨
      h.server.connectionBuffers[fd]? = some client ∧ client.Handing fd (h.peers fd).handed ∧
        (h.accepted accepts).peers fd = h.peers fd ∨
      client.connection.Cleared (some fd) ∧ client.request = none ∧ (h.accepted accepts).peers fd = .new := by
    intro fd client hclient
    rcases hentry fd client hclient with hsame | ⟨hclosed, hidle | ⟨hcleared, hrequest⟩⟩
    · apply (hh.entry fd client hsame).imp_right
      intro hhanding
      refine Or.inl ⟨hsame, hhanding, hkept fd ?_⟩
      rw [RetransmitServer.isOpen_of_getElem? hsame, hhanding.socket]
      rfl
    · exact Or.inl hidle
    · exact Or.inr (Or.inr ⟨hcleared, hrequest, hopened fd client hclient hcleared.socket hclosed⟩)
  refine ⟨?_, ?_⟩
  · intro fd client hclient
    rcases hcases fd client hclient with hidle | ⟨-, hhanding, hpeer⟩ | ⟨hcleared, hrequest, -⟩
    · exact Or.inl hidle
    · rw [hpeer]
      exact Or.inr hhanding
    · exact Or.inr (.waiting [] (Or.inl ⟨hcleared, rfl⟩) hrequest)
  · intro fd client hclient hsocket requests hvalid harrived
    rcases hcases fd client hclient with hidle | ⟨hsame, hhanding, hpeer⟩ | ⟨hcleared, hrequest, hpeer⟩
    · rw [hidle.1.socket] at hsocket
      cases hsocket
    · rw [hpeer] at harrived
      rw [served, hpeer]
      exact hh.serving fd client hsame hsocket requests hvalid harrived
    · rw [served, hpeer]
      refine .awaiting [] rfl (Or.inl ⟨hcleared, rfl⟩) hrequest (fun chunk hchunk => ?_) rfl rfl
      cases hchunk

theorem Hosting.event (hh : h.Hosting cached) (memory : Nat → MessageSlot) (hbound : cached.length + 1 < 2 ^ 32)
    {client : SavedConnection}
    (hclient : h.server.connectionBuffers[fd]? = some client) (hhanding : client.Handing fd (h.peers fd).handed)
    (recvEnd : RecvEnd) (sends : List Nat) (sendEnd : Errno) (room : MessageMemory) (registers : Bool) :
    ∃ s, (h.served fd client).step (cached.foldl CircularCache.putItem (.new memory))
        (.event recvEnd sends sendEnd room registers) = some s ∧ (h.attended fd s).Hosting cached := by
  obtain ⟨s, hstep, hleft⟩ := hhanding.event (cached.foldl CircularCache.putItem (.new memory))
    (h.peers fd).chunks (h.peers fd).received recvEnd sends sendEnd room registers
  refine ⟨s, hstep, hh.attended hclient hleft ?_⟩
  intro _ requests hvalid harrived
  obtain ⟨s', hstep', hserving⟩ := (hh.serving fd client hclient hhanding.socket requests hvalid harrived).event
    harrived (fun request hrequest => cacheGives_putItem memory hbound (hvalid request hrequest))
    recvEnd sends sendEnd room registers
  rw [served, hstep] at hstep'
  cases hstep'
  exact hserving

theorem Hosting.clientError (hh : h.Hosting cached) {client : SavedConnection}
    (hclient : h.server.connectionBuffers[fd]? = some client) (hhanding : client.Handing fd (h.peers fd).handed)
    (context : EventContext) (k : StreamSocket) :
    ∃ closed k', notifyAndClose context client .clientConnection k = some (closed, k') ∧
      (h.attended fd ⟨closed, k'.chunks, (h.peers fd).handed, (h.peers fd).received, false,
        k'.handed.drop (h.peers fd).handed.length⟩).Hosting cached := by
  have hopen : client.connection.socket.isSome := by
    rw [hhanding.socket]
    rfl
  obtain ⟨closed, k', hclosed, hcleared, hrequest⟩ :=
    notifyAndClose_closes context .clientConnection k hopen hhanding.length
  refine ⟨closed, k', hclosed, hh.attended hclient (Or.inr ⟨rfl, hcleared, hrequest⟩) ?_⟩
  intro hnone
  cases hnone

theorem Hosting.step (hh : h.Hosting cached) (memory : Nat → MessageSlot) (hbound : cached.length + 1 < 2 ^ 32)
    (turn : HostTurn) :
    ∃ h', h.step (cached.foldl CircularCache.putItem (.new memory)) turn = some h' ∧ h'.Hosting cached := by
  cases turn with
  | arrive fd chunk =>
    by_cases hchunk : chunk = []
    · exact ⟨h, if_pos hchunk, hh⟩
    · exact ⟨_, if_neg hchunk, hh.arrive fd hchunk⟩
  | accept accepts =>
    by_cases hdelivered : h.running = true ∧ h.server.FreshAccepts accepts
    · exact ⟨_, if_pos hdelivered, hh.accept hdelivered.2⟩
    · exact ⟨h, if_neg hdelivered, hh⟩
  | client fd recvEnd sends sendEnd room registers =>
    by_cases hdelivered : h.running = true ∧ h.server.isOpen fd = true
    · obtain ⟨client, hclient, hhanding⟩ := hh.handing hdelivered.2
      obtain ⟨s, hstep, hhosting⟩ := hh.event memory hbound hclient hhanding recvEnd sends sendEnd room
        registers
      refine ⟨_, ?_, hhosting⟩
      simp only [ServerHost.step, if_pos hdelivered, hclient, hstep, Option.bind_eq_bind, Option.bind_some]
      rfl
    · exact ⟨h, if_neg hdelivered, hh⟩
  | clientError fd sends sendEnd room =>
    by_cases hdelivered : h.running = true ∧ h.server.isOpen fd = true
    · obtain ⟨client, hclient, hhanding⟩ := hh.handing hdelivered.2
      obtain ⟨closed, k, hclosed, hhosting⟩ := hh.clientError hclient hhanding
        ⟨cached.foldl CircularCache.putItem (.new memory), room, true⟩
        ⟨(h.peers fd).chunks, .closed, sends, sendEnd, (h.peers fd).handed⟩
      refine ⟨_, ?_, hhosting⟩
      simp only [ServerHost.step, if_pos hdelivered, hclient, hclosed, Option.bind_eq_bind, Option.bind_some]
      rfl
    · exact ⟨h, if_neg hdelivered, hh⟩

theorem Hosting.run (hh : h.Hosting cached) (memory : Nat → MessageSlot) (hbound : cached.length + 1 < 2 ^ 32)
    (turns : List HostTurn) :
    ∃ h', h.run (cached.foldl CircularCache.putItem (.new memory)) turns = some h' ∧ h'.Hosting cached := by
  induction turns generalizing h with
  | nil => exact ⟨h, rfl, hh⟩
  | cons turn turns ih =>
    obtain ⟨h₁, hstep, hhosting⟩ := hh.step memory hbound turn
    obtain ⟨h', hrun, hhosting'⟩ := ih hhosting
    refine ⟨h', ?_, hhosting'⟩
    rw [ServerHost.run, List.foldlM_cons, hstep]
    exact hrun

/-- However the clients come and go, and whatever the others send: no assertion fails, and an open
client whose bytes are valid requests has been handed a prefix of its answers, in order, and all of
them when nothing of a request is stored. -/
theorem every_client_answered (memory : Nat → MessageSlot) (cached : List MessageSlot)
    (hbound : cached.length + 1 < 2 ^ 32) (socketFd : Nat) (turns : List HostTurn) :
    ∃ h, (start socketFd).run (cached.foldl CircularCache.putItem (.new memory)) turns = some h ∧
      ∀ (fd : Nat) (client : SavedConnection), h.server.connectionBuffers[fd]? = some client →
        client.connection.socket = some fd → ∀ requests : List RetransmitRequest,
          (∀ request ∈ requests, request.Valid cached) → (h.peers fd).arrived <+: requestBytes requests →
          Serves cached requests (h.served fd client) := by
  obtain ⟨h, hrun, hhosting⟩ := (start_hosting cached socketFd).run memory hbound turns
  refine ⟨h, hrun, ?_⟩
  intro fd client hclient hsocket requests hvalid harrived
  exact (hhosting.serving fd client hclient hsocket requests hvalid harrived).serves harrived

end ServerHost

/-- One client asks for a packet that never is, and is closed; its descriptor is then another's. -/
def crowdedTurns : List HostTurn :=
  [.accept [.accepted 6 true true, .accepted 7 true true, .wouldBlock],
    .arrive 6 (RetransmitRequest.serialize ⟨0, 3⟩), .arrive 7 ((RetransmitRequest.serialize ⟨1, 3⟩).take 10),
    .client 6 (.failed .wouldBlock) [] .wouldBlock blankMemory true,
    .client 7 (.failed .wouldBlock) [] .wouldBlock blankMemory true,
    .accept [.accepted 6 true true, .wouldBlock],
    .arrive 6 (RetransmitRequest.serialize ⟨2, 3⟩), .arrive 7 ((RetransmitRequest.serialize ⟨1, 3⟩).drop 10),
    .client 7 (.failed .wouldBlock) [5, 1] .wouldBlock blankMemory true,
    .client 6 (.failed .wouldBlock) [100] .wouldBlock blankMemory true,
    .client 7 (.failed .wouldBlock) [100, 20, 20] .wouldBlock blankMemory true]

theorem every_client_answered_crowdedTurns :
    let cache : RetransmitCache := cachedPair.foldl CircularCache.putItem (.new fun _ => blankSlot)
    ((ServerHost.start 3).run cache crowdedTurns).map (fun h => ((h.peers 6).handed, (h.peers 7).handed)) =
      some (answer cachedPair ⟨2, 3⟩, answer cachedPair ⟨1, 3⟩) ∧
    ∃ h, (ServerHost.start 3).run cache crowdedTurns = some h ∧
      ∀ (fd : Nat) (client : SavedConnection), h.server.connectionBuffers[fd]? = some client →
        client.connection.socket = some fd → ∀ requests : List RetransmitRequest,
          (∀ request ∈ requests, request.Valid cachedPair) → (h.peers fd).arrived <+: requestBytes requests →
          Serves cachedPair requests (h.served fd client) :=
  ⟨by decide +kernel, ServerHost.every_client_answered (fun _ => blankSlot) cachedPair (by decide) 3 crowdedTurns⟩

end HftPipeline
