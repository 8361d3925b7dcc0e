import HftPipeline.ServedConnection

/-!
# Answering requests in order

One connection over a whole run: its bytes arrive in any chunks, and its read and write
events come in any order, with any short sends. As long as the server has not closed it,
the bytes handed to the kernel are the answers to its requests, one after another.
-/
namespace HftPipeline

/-- A connection of the server: its entry, the bytes that have arrived and are not received,
the bytes handed to the kernel before the server closed it, the requests received, and the bytes
of the error message that were handed to the kernel when the server closed it with one. -/
structure ServedClient where
  client : SavedConnection
  chunks : List (List UInt8)
  handed : List UInt8
  received : List RetransmitRequest
  isOpen : Bool
  notice : List UInt8

/-- Bytes arrive, or there is a read or write event; the server handles both in the same way. -/
inductive ClientTurn where
  | arrive (chunk : List UInt8)
  | event (recvEnd : RecvEnd) (sends : List Nat) (sendEnd : Errno) (memory : MessageMemory) (registers : Bool)

namespace ServedClient

/-- A new connection in an entry that may have been used before. -/
def start (fd : Nat) (memory : MessageMemory) : ServedClient :=
  ⟨⟨⟨memory.val, some fd, 0, 0, .clear⟩, none⟩, [], [], [], true, []⟩

def step (cache : RetransmitCache) (s : ServedClient) : ClientTurn → Option ServedClient
  | .arrive chunk => some { s with chunks := s.chunks ++ [chunk] }
  | .event recvEnd sends sendEnd memory registers =>
    if s.isOpen then do
      let h ← handleRequest ⟨cache, memory, registers⟩ s.client ⟨s.chunks, recvEnd, sends, sendEnd, s.handed⟩
      return ⟨h.client, h.socket.chunks, h.streamed, s.received ++ h.received.toList, !h.closed, h.notice⟩
    else some s

def run (cache : RetransmitCache) (s : ServedClient) : List ClientTurn → Option ServedClient
  | [] => some s
  | turn :: turns => do (← s.step cache turn).run cache turns

end ServedClient

/-- The chunks that arrive in a run. -/
def arrivals : List ClientTurn → List (List UInt8)
  | [] => []
  | .arrive chunk :: turns => chunk :: arrivals turns
  | .event _ _ _ _ _ :: turns => arrivals turns

/-- The bytes of the packet with a number. -/
def packetBytes (cached : List MessageSlot) (number : Nat) : List UInt8 :=
  match cached[number - firstSequenceId.toNat]? with
  | some m => m.val.message
  | none => []

/-- Messages `first_packet` up to `last_packet`, the last one excluded. -/
def answer (cached : List MessageSlot) (request : RetransmitRequest) : List UInt8 :=
  stretch (packetBytes cached) request.firstPacket.toNat (request.lastPacket.toNat - request.firstPacket.toNat)

/-- A request for packets that have been sequenced. -/
def RetransmitRequest.Valid (cached : List MessageSlot) (request : RetransmitRequest) : Prop :=
  firstSequenceId ≤ request.firstPacket ∧ request.lastPacket.toNat ≤ cached.length + 1

/-- What holds of a connection at every moment. -/
structure Serves (cached : List MessageSlot) (requests : List RetransmitRequest) (s : ServedClient) : Prop where
  handed : s.handed <+: requests.flatMap (answer cached)
  stored : s.isOpen = true → (s.client.connection.status = .partialSend ↔ s.client.request.isSome = true)
  received : s.received <+: requests
  answered : s.isOpen = true →
    s.client.connection.status = .clear ∨ s.client.connection.status = .partialReceive →
    s.client.request = none → s.handed = s.received.flatMap (answer cached)

/-! ## The stream of requests -/

/-- The bytes of requests, one behind another. -/
def requestBytes (requests : List RetransmitRequest) : List UInt8 :=
  requests.flatMap RetransmitRequest.serialize

/-- Requests have one length, so a prefix of the bytes is a prefix of the requests. -/
theorem requestBytes_take {received requests : List RetransmitRequest}
    (h : requestBytes received <+: requestBytes requests) : received <+: requests := by
  induction received generalizing requests with
  | nil => exact List.nil_prefix
  | cons request received ih =>
    obtain ⟨rest, hrest⟩ := h
    cases requests with
    | nil =>
      have hlength := congrArg List.length hrest
      rw [requestBytes, List.flatMap_cons, List.append_assoc, List.length_append,
        RetransmitRequest.length_serialize, requestBytes, List.flatMap_nil, List.length_nil] at hlength
      have hsize : RetransmitRequest.packedSize = 16 := rfl
      omega
    | cons request' requests =>
      rw [requestBytes, requestBytes, List.flatMap_cons, List.flatMap_cons, List.append_assoc] at hrest
      obtain ⟨hsame, hmore⟩ := List.append_inj hrest (by
        rw [RetransmitRequest.length_serialize, RetransmitRequest.length_serialize])
      have hrequest : request = request' := by
        have hparse := request.parse_serialize
        rw [hsame, RetransmitRequest.parse_serialize] at hparse
        exact (Option.some.inj hparse).symm
      rw [hrequest]
      exact (List.prefix_cons_inj request').mpr (ih ⟨rest, hmore⟩)

variable {cached : List MessageSlot} {requests : List RetransmitRequest} {cache : RetransmitCache}

/-- The cache gives the packets of a valid request. -/
theorem cacheGives_putItem (memory : Nat → MessageSlot) (hbound : cached.length + 1 < 2 ^ 32)
    {request : RetransmitRequest} (hvalid : request.Valid cached) :
    CacheGives (cached.foldl CircularCache.putItem (.new memory)) (packetBytes cached)
      request.firstPacket.toNat request.lastPacket.toNat := by
  intro number m hfirst hlast hm
  obtain ⟨hone, hcount⟩ := hvalid
  have hone : 1 ≤ request.firstPacket.toNat := hone
  have hle : firstSequenceId ≤ number := by
    show (1 : UInt64).toNat ≤ number.toNat
    rw [UInt64.toNat_one]
    omega
  have hindex : (number - firstSequenceId).toUInt32.toNat = number.toNat - firstSequenceId.toNat := by
    rw [UInt64.toNat_toUInt32, UInt64.toNat_sub_of_le _ _ hle]
    exact Nat.mod_eq_of_lt (by omega)
  have hfirstId : firstSequenceId.toNat = 1 := rfl
  have hitem := CircularCache.tryGetItem_putItem memory (show cached.length < 2 ^ 32 - 1 by omega)
    (by rw [hindex]; omega) hm
  rw [hindex] at hitem
  rw [packetBytes, hitem]

/-! ## The error message -/

/-- Where a connection stands after the bytes `arrived`. -/
inductive Serving (cached : List MessageSlot) (fd : Nat) (arrived : List UInt8) (s : ServedClient) : Prop
  | awaiting (got : List UInt8) (hopen : s.isOpen = true) (hconnection : s.client.connection.Awaits (some fd) got)
      (hrequest : s.client.request = none) (hchunks : Arrived s.chunks)
      (hbytes : arrived = requestBytes s.received ++ (got ++ s.chunks.flatten))
      (hhanded : s.handed = s.received.flatMap (answer cached))
  | sending (before : List RetransmitRequest) (request : RetransmitRequest) (packet : UInt64)
      (hopen : s.isOpen = true) (hfirst : request.firstPacket.toNat ≤ packet.toNat)
      (hlast : packet < request.lastPacket)
      (hconnection : s.client.connection.Carries (some fd) (packetBytes cached packet.toNat))
      (hstatus : s.client.connection.status = .partialSend)
      (hrequest : s.client.request = some ⟨packet, request.lastPacket⟩)
      (hreceived : s.received = before ++ [request]) (hchunks : Arrived s.chunks)
      (hbytes : arrived = requestBytes s.received ++ s.chunks.flatten)
      (hhanded : s.handed = before.flatMap (answer cached) ++
        (stretch (packetBytes cached) request.firstPacket.toNat (packet.toNat - request.firstPacket.toNat) ++
          (packetBytes cached packet.toNat).take s.client.connection.tail))
  | closed (hclosed : s.isOpen = false) (hbytes : requestBytes s.received <+: arrived)
      (hhanded : s.handed <+: s.received.flatMap (answer cached))

variable {fd : Nat} {arrived : List UInt8} {s : ServedClient}

/-- An error message comes after all of this. -/
theorem Serving.withNotice (h : Serving cached fd arrived s) (notice : List UInt8) :
    Serving cached fd arrived { s with notice := notice } := by
  cases h with
  | awaiting got hopen hconnection hrequest hchunks hbytes hhanded =>
    exact .awaiting got hopen hconnection hrequest hchunks hbytes hhanded
  | sending before request packet hopen hfirst hlast hconnection hstatus hrequest hreceived hchunks hbytes hhanded =>
    exact .sending before request packet hopen hfirst hlast hconnection hstatus hrequest hreceived hchunks hbytes
      hhanded
  | closed hclosed hbytes hhanded => exact .closed hclosed hbytes hhanded

theorem Serving.arrive (h : Serving cached fd arrived s) {chunk : List UInt8} (hchunk : chunk ≠ []) :
    Serving cached fd (arrived ++ chunk) { s with chunks := s.chunks ++ [chunk] } := by
  have hmore : ∀ chunks : List (List UInt8), Arrived chunks → Arrived (chunks ++ [chunk]) := by
    intro chunks hchunks c hc
    rcases List.mem_append.mp hc with hold | hnew
    · exact hchunks c hold
    · rw [List.mem_singleton.mp hnew]
      exact hchunk
  have hflatten : (s.chunks ++ [chunk]).flatten = s.chunks.flatten ++ chunk := by
    rw [List.flatten_append, List.flatten_singleton]
  cases h with
  | awaiting got hopen hconnection hrequest hchunks hbytes hhanded =>
    refine .awaiting got hopen hconnection hrequest (hmore _ hchunks) ?_ hhanded
    rw [hbytes, hflatten]
    simp only [List.append_assoc]
  | sending before request packet hopen hfirst hlast hconnection hstatus hrequest hreceived hchunks hbytes hhanded =>
    refine .sending before request packet hopen hfirst hlast hconnection hstatus hrequest hreceived
      (hmore _ hchunks) ?_ hhanded
    rw [hbytes, hflatten, List.append_assoc]
  | closed hclosed hbytes hhanded =>
    exact .closed hclosed (hbytes.trans (List.prefix_append _ _)) hhanded

/-- An answer leads to a connection that waits, that goes on sending, or that is closed. -/
theorem Serving.of_answered {before : List RetransmitRequest} {request : RetransmitRequest} {h : Handled}
    {chunks : List (List UInt8)} (hchunks : Arrived chunks)
    (hbytes : arrived = requestBytes (before ++ [request]) ++ chunks.flatten)
    (hanswered : Answered (packetBytes cached) (some fd) request.lastPacket request.firstPacket.toNat
      (before.flatMap (answer cached)) chunks h) :
    Serving cached fd arrived
      ⟨h.client, h.socket.chunks, h.streamed, before ++ [request], !h.closed, h.notice⟩ := by
  have hall : (before ++ [request]).flatMap (answer cached) =
      before.flatMap (answer cached) ++ answer cached request := by
    rw [List.flatMap_append, List.flatMap_singleton]
  cases hanswered with
  | done hclosed hconnection hrequest hsame hhanded =>
    refine .awaiting [] (by rw [hclosed]; rfl) (Or.inl ⟨hconnection, rfl⟩) hrequest
      (by rw [hsame]; exact hchunks) ?_ ?_
    · rw [hsame]
      exact hbytes
    · rw [hall]
      exact hhanded
  | blocked packet hclosed hfirst hlast hconnection hstatus hrequest hsame hhanded =>
    exact .sending before request packet (by rw [hclosed]; rfl) hfirst hlast hconnection hstatus hrequest rfl
      (by rw [hsame]; exact hchunks) (by rw [hsame]; exact hbytes) hhanded
  | closed hclosed hconnection hrequest hhanded =>
    refine .closed (by rw [hclosed]; rfl) ?_ ?_
    · rw [hbytes]
      exact List.prefix_append _ _
    · rw [hall]
      exact hhanded

theorem Serving.event (h : Serving cached fd arrived s) (harrived : arrived <+: requestBytes requests)
    (hgives : ∀ request ∈ requests, CacheGives cache (packetBytes cached) request.firstPacket.toNat
      request.lastPacket.toNat)
    (recvEnd : RecvEnd) (sends : List Nat) (sendEnd : Errno) (memory : MessageMemory) (registers : Bool) :
    ∃ s', s.step cache (.event recvEnd sends sendEnd memory registers) = some s' ∧
      Serving cached fd arrived s' := by
  cases h with
  | awaiting got hopen hconnection hrequest hchunks hbytes hhanded =>
    obtain ⟨h, hh, hattended⟩ := handleRequest_awaiting rfl ⟨cache, memory, registers⟩
      ⟨s.chunks, recvEnd, sends, sendEnd, s.handed⟩ hconnection hrequest
    simp only [ServedClient.step, if_pos hopen, hh, Option.bind_eq_bind, Option.bind_some]
    refine ⟨_, rfl, ?_⟩
    cases hattended with
    | waiting got' hreceived hclosed hconnection' hrequest' hstreamed hbytes' =>
      obtain ⟨hempty, hgot⟩ := hbytes' hchunks
      rw [hreceived, Option.toList_none, List.append_nil]
      refine .awaiting got' (by rw [hclosed]; rfl) (Or.inr hconnection') hrequest' ?_ ?_ (hstreamed.trans hhanded)
      · rw [hempty]
        exact fun c hc => by cases hc
      · show arrived = requestBytes s.received ++ (got' ++ h.socket.chunks.flatten)
        rw [hempty, List.flatten_nil, List.append_nil, hgot]
        exact hbytes
    | closed hreceived hclosed hconnection' hrequest' hstreamed =>
      rw [hreceived, Option.toList_none, List.append_nil]
      refine .closed (by rw [hclosed]; rfl) ?_ ?_
      · rw [hbytes]
        exact List.prefix_append _ _
      · rw [← hhanded]
        exact hstreamed ▸ List.prefix_refl _
    | answered request chunks hreceived hbytes' hanswered =>
      obtain ⟨hchunks', hsplit⟩ := hbytes' hchunks
      have hbytes'' : arrived = requestBytes (s.received ++ [request]) ++ chunks.flatten := by
        rw [hbytes, hsplit, requestBytes, requestBytes, List.flatMap_append, List.flatMap_singleton,
          List.append_assoc]
      have hmember : request ∈ requests := by
        have hprefix : requestBytes (s.received ++ [request]) <+: requestBytes requests :=
          (hbytes'' ▸ List.prefix_append _ _).trans harrived
        exact (requestBytes_take hprefix).subset (List.mem_append_right _ List.mem_cons_self)
      rw [hreceived, Option.toList_some]
      have hanswer := hanswered _ (hgives request hmember)
      rw [show (StreamSocket.mk s.chunks recvEnd sends sendEnd s.handed).handed = s.handed from rfl,
        hhanded] at hanswer
      exact .of_answered hchunks' hbytes'' hanswer
  | sending before request packet hopen hfirst hlast hconnection hstatus hrequest hreceived hchunks hbytes hhanded =>
    have hmember : request ∈ requests := by
      have hprefix : requestBytes s.received <+: requestBytes requests :=
        (hbytes ▸ List.prefix_append _ _).trans harrived
      refine (requestBytes_take hprefix).subset ?_
      rw [hreceived]
      exact List.mem_append_right _ List.mem_cons_self
    have hlater : CacheGives cache (packetBytes cached) (packet.toNat + 1) request.lastPacket.toNat :=
      fun number m hnumber => hgives request hmember number m (by omega)
    obtain ⟨h, hh, hnone, hanswered⟩ := handleRequest_sending rfl ⟨cache, memory, registers⟩
      ⟨s.chunks, recvEnd, sends, sendEnd, s.handed⟩ hlast hconnection hstatus hrequest
      (hhanded.trans (List.append_assoc _ _ _).symm) hlater
    have hanswered := Answered.since hfirst (Nat.le_of_lt hlast) hanswered
    simp only [ServedClient.step, if_pos hopen, hh, Option.bind_eq_bind, Option.bind_some]
    refine ⟨_, rfl, ?_⟩
    rw [hnone, Option.toList_none, List.append_nil, hreceived]
    exact .of_answered hchunks (by rw [← hreceived]; exact hbytes) hanswered
  | closed hclosed hbytes hhanded =>
    have hstill : ¬s.isOpen = true := by rw [hclosed]; exact nofun
    exact ⟨s, if_neg hstill, .closed hclosed hbytes hhanded⟩

theorem Serving.run (turns : List ClientTurn) (h : Serving cached fd arrived s)
    (hchunks : Arrived (arrivals turns))
    (harrived : arrived ++ (arrivals turns).flatten <+: requestBytes requests)
    (hgives : ∀ request ∈ requests, CacheGives cache (packetBytes cached) request.firstPacket.toNat
      request.lastPacket.toNat) :
    ∃ s', s.run cache turns = some s' ∧ Serving cached fd (arrived ++ (arrivals turns).flatten) s' := by
  induction turns generalizing s arrived with
  | nil =>
    refine ⟨s, rfl, ?_⟩
    rw [arrivals, List.flatten_nil, List.append_nil]
    exact h
  | cons turn turns ih =>
    cases turn with
    | arrive chunk =>
      rw [arrivals] at hchunks harrived ⊢
      rw [List.flatten_cons, ← List.append_assoc] at harrived ⊢
      exact ih (h.arrive (hchunks chunk List.mem_cons_self)) hchunks.tail harrived
    | event recvEnd sends sendEnd memory registers =>
      rw [arrivals] at hchunks harrived ⊢
      obtain ⟨s', hstep, hserving⟩ := h.event ((List.prefix_append _ _).trans harrived) hgives
        recvEnd sends sendEnd memory registers
      simp only [ServedClient.run, hstep, Option.bind_eq_bind, Option.bind_some]
      exact ih hserving hchunks harrived

theorem Serving.serves (h : Serving cached fd arrived s) (harrived : arrived <+: requestBytes requests) :
    Serves cached requests s := by
  cases h with
  | awaiting got hopen hconnection hrequest hchunks hbytes hhanded =>
    have hreceived : s.received <+: requests :=
      requestBytes_take ((hbytes ▸ List.prefix_append _ _).trans harrived)
    refine ⟨?_, fun _ => ?_, hreceived, fun _ _ _ => hhanded⟩
    · rw [hhanded]
      exact hreceived.flatMap _
    · rw [hrequest]
      rcases hconnection with ⟨hcleared, -⟩ | hreceives
      · rw [hcleared.status]
        exact iff_of_false nofun nofun
      · rw [hreceives.status]
        exact iff_of_false nofun nofun
  | sending before request packet hopen hfirst hlast hconnection hstatus hrequest hreceived' hchunks hbytes hhanded =>
    have hreceived : s.received <+: requests :=
      requestBytes_take ((hbytes ▸ List.prefix_append _ _).trans harrived)
    refine ⟨?_, fun _ => ?_, hreceived, fun _ _ hnone => ?_⟩
    · refine List.IsPrefix.trans ?_ (hreceived.flatMap (answer cached))
      rw [hhanded, hreceived', List.flatMap_append, List.flatMap_singleton]
      exact (List.prefix_append_right_inj _).mpr (stretch_stopped _ hfirst hlast _)
    · rw [hstatus, hrequest]
      exact iff_of_true rfl rfl
    · rw [hrequest] at hnone
      cases hnone
  | closed hclosed hbytes hhanded =>
    have hreceived : s.received <+: requests := requestBytes_take (hbytes.trans harrived)
    refine ⟨hhanded.trans (hreceived.flatMap _), fun hopen => ?_, hreceived, fun hopen => ?_⟩
    · rw [hclosed] at hopen
      cases hopen
    · rw [hclosed] at hopen
      cases hopen

/-- In every run of a connection whose bytes are valid requests: no assertion fails, the bytes
handed to the kernel are a prefix of the answers in order, a request is stored exactly
while a packet is partly sent, and otherwise all that was received has been answered. -/
theorem requests_answered_in_order (memory : Nat → MessageSlot) (cached : List MessageSlot)
    (hbound : cached.length + 1 < 2 ^ 32) (requests : List RetransmitRequest)
    (hvalid : ∀ request ∈ requests, request.Valid cached) (fd : Nat) (room : MessageMemory)
    (turns : List ClientTurn) (hchunks : Arrived (arrivals turns))
    (harrived : (arrivals turns).flatten <+: requestBytes requests) :
    ∃ s, (ServedClient.start fd room).run (cached.foldl CircularCache.putItem (.new memory)) turns = some s ∧
      Serves cached requests s := by
  have hstart : Serving cached fd [] (ServedClient.start fd room) := by
    refine .awaiting [] rfl (Or.inl ⟨⟨rfl, room.property, rfl, rfl, rfl⟩, rfl⟩) rfl (fun c hc => ?_) rfl rfl
    cases hc
  obtain ⟨s, hrun, hserving⟩ := hstart.run turns hchunks harrived
    (fun request hrequest => cacheGives_putItem memory hbound (hvalid request hrequest))
  exact ⟨s, hrun, hserving.serves harrived⟩

def blankSlot : MessageSlot := ⟨⟨⟨0, 0⟩, blankMemory.val⟩, blankMemory.property⟩

/-- Two packets, one of each side. -/
def cachedPair : List MessageSlot :=
  [⟨Sequencer.packet ⟨1⟩ ⟨⟨7, 100, 5, .buy⟩, .add⟩ (blankMemory.val.drop 28), by decide⟩,
    ⟨Sequencer.packet ⟨2⟩ ⟨⟨8, 101, 5, .sell⟩, .add⟩ (blankMemory.val.drop 28), by decide⟩]

/-- A request arrives in two parts, and its answer stops within the first packet. -/
def haltingTurns : List ClientTurn :=
  [.arrive ((RetransmitRequest.serialize ⟨1, 3⟩).take 10),
    .event (.failed .wouldBlock) [] .wouldBlock blankMemory true,
    .arrive ((RetransmitRequest.serialize ⟨1, 3⟩).drop 10),
    .event (.failed .wouldBlock) [5, 1] .wouldBlock blankMemory true,
    .event (.failed .wouldBlock) [100, 20, 20] .wouldBlock blankMemory true]

theorem requests_answered_in_order_haltingTurns :
    let cache : RetransmitCache := cachedPair.foldl CircularCache.putItem (.new fun _ => blankSlot)
    ((ServedClient.start 6 blankMemory).run cache (haltingTurns.take 4)).map (·.handed.length) = some 6 ∧
    ((ServedClient.start 6 blankMemory).run cache haltingTurns).map (·.handed) = some (answer cachedPair ⟨1, 3⟩) ∧
    ∃ s, (ServedClient.start 6 blankMemory).run cache haltingTurns = some s ∧ Serves cachedPair [⟨1, 3⟩] s := by
  refine ⟨by decide +kernel, by decide +kernel, ?_⟩
  refine requests_answered_in_order (fun _ => blankSlot) cachedPair (by decide) [⟨1, 3⟩] ?_ 6 blankMemory
    haltingTurns ?_ (by decide +kernel)
  · intro request hrequest
    rw [List.mem_singleton.mp hrequest]
    exact ⟨by decide, by decide⟩
  · unfold Arrived
    decide +kernel

end HftPipeline
