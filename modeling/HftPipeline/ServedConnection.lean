import HftPipeline.RetransmitServer

/-!
# What the server does for a connection

Between events a connection is clear, has received a part of a request, or has sent a part
of a packet. Each function of the server takes it from one of these to another; none of
their assertions fails, and what is handed to the kernel is known byte for byte.
-/
namespace HftPipeline

/-! ## What a connection holds -/

namespace Connection

/-- Neither receiving nor sending. -/
structure Cleared (socket : Option Nat) (c : Connection) : Prop where
  socket : c.socket = socket
  length : c.buffer.length = EncodedMessage.maxWireSize
  status : c.status = .clear
  head : c.head = 0
  tail : c.tail = 0

/-- With the first bytes of a request. -/
structure Receives (socket : Option Nat) (got : List UInt8) (c : Connection) : Prop where
  socket : c.socket = socket
  length : c.buffer.length = EncodedMessage.maxWireSize
  status : c.status = .partialReceive
  head : c.head = RetransmitRequest.packedSize
  tail : c.tail = got.length
  short : got.length ≤ RetransmitRequest.packedSize
  buffer : c.buffer.take got.length = got

/-- With a packet of which the first `tail` bytes are sent. -/
structure Carries (socket : Option Nat) (packet : List UInt8) (c : Connection) : Prop where
  socket : c.socket = socket
  length : c.buffer.length = EncodedMessage.maxWireSize
  status : c.status = .savedMessage ∨ c.status = .partialSend
  head : c.head = packet.length
  tail : c.tail ≤ packet.length
  buffer : c.buffer.take packet.length = packet

variable {c : Connection} {socket : Option Nat} {packet base : List UInt8} {k : StreamSocket}

/-- A range of the buffer is a range of the packet. -/
theorem Carries.field_eq (h : c.Carries socket packet) {tail : Nat} (hle : tail ≤ packet.length) :
    packet.take c.tail ++ field c.buffer c.tail (tail - c.tail) = packet.take (c.tail + (tail - c.tail)) := by
  rw [List.take_add]
  congr 1
  have hdrop : packet.drop c.tail = (c.buffer.drop c.tail).take (packet.length - c.tail) := by
    conv_lhs => rw [← h.buffer]
    rw [List.drop_take]
  rw [field, hdrop, List.take_take, Nat.min_eq_left (by omega)]

/-- A send hands over the rest of the packet, or a part of it. -/
theorem Carries.send (h : c.Carries socket packet) (hopen : socket.isSome) (k : StreamSocket) :
    (∃ c' k', c.send k = some (.ok (), c', k') ∧ c'.Cleared socket ∧ k'.chunks = k.chunks ∧
      ∀ base, k.handed = base ++ packet.take c.tail → k'.handed = base ++ packet) ∨
    ∃ errno c' k', c.send k = some (.error (sendError errno), c', k') ∧ c'.Carries socket packet ∧
      c'.status = .partialSend ∧ k'.chunks = k.chunks ∧
      ∀ base, k.handed = base ++ packet.take c.tail → k'.handed = base ++ packet.take c'.tail := by
  have hle : c.tail ≤ c.head := by rw [h.head]; exact h.tail
  obtain ⟨hbytes, hge, hstop, hall⟩ := sendRange_spec k.sendEnd c.buffer k.sends hle
  have hguard : c.socket.isSome ∧ (c.status = .savedMessage ∨ c.status = .partialSend) :=
    ⟨by rw [h.socket]; exact hopen, h.status⟩
  have hstop := Nat.le_trans hstop (Nat.le_of_eq h.head)
  have hhanded : ∀ base, k.handed = base ++ packet.take c.tail →
      k.handed ++ (sendRange k.sendEnd c.buffer k.sends c.tail c.head).bytes =
        base ++ packet.take (sendRange k.sendEnd c.buffer k.sends c.tail c.head).start := by
    intro base hbefore
    rw [hbytes, hbefore, List.append_assoc, h.field_eq hstop, Nat.add_sub_cancel' hge]
  cases herror : (sendRange k.sendEnd c.buffer k.sends c.tail c.head).error with
  | none =>
    rw [hall herror, List.take_of_length_le (Nat.le_of_eq h.head.symm)] at hhanded
    refine Or.inl ⟨c.clear, { k with
        sends := (sendRange k.sendEnd c.buffer k.sends c.tail c.head).sends
        handed := k.handed ++ (sendRange k.sendEnd c.buffer k.sends c.tail c.head).bytes },
      ?_, ⟨h.socket, h.length, rfl, rfl, rfl⟩, rfl, hhanded⟩
    rw [Connection.send, if_pos hguard]
    simp only [herror]
    rfl
  | some errno =>
    refine Or.inr ⟨errno, { c with
        tail := (sendRange k.sendEnd c.buffer k.sends c.tail c.head).start, status := .partialSend },
      { k with
        sends := (sendRange k.sendEnd c.buffer k.sends c.tail c.head).sends
        handed := k.handed ++ (sendRange k.sendEnd c.buffer k.sends c.tail c.head).bytes },
      ?_, ⟨h.socket, h.length, Or.inr rfl, h.head, hstop, h.buffer⟩, rfl, rfl, hhanded⟩
    rw [Connection.send, if_pos hguard]
    simp only [herror]

theorem take_overwrite_zero (buffer bytes : List UInt8) :
    (overwrite buffer 0 bytes).take bytes.length = bytes := by
  rw [overwrite, List.take_zero, List.nil_append, List.take_left]

/-- A packet that fits is saved in a cleared connection. -/
theorem Cleared.save (h : c.Cleared socket) (hfits : packet.length ≤ EncodedMessage.maxWireSize) :
    ∃ c', c.save packet = some c' ∧ c'.Carries socket packet ∧ c'.tail = 0 := by
  have hroom : packet.length ≤ c.buffer.length - c.head := by
    rw [h.length, h.head]
    exact hfits
  refine ⟨{ c with
    buffer := overwrite c.buffer c.head packet, head := c.head + packet.length, status := .savedMessage },
    if_pos ⟨Or.inl h.status, hroom⟩, ⟨h.socket, ?_, Or.inl rfl, ?_, ?_, ?_⟩, h.tail⟩
  · show (overwrite c.buffer c.head packet).length = _
    rw [length_overwrite (by rw [h.length, h.head]; omega), h.length]
  · show c.head + packet.length = packet.length
    rw [h.head, Nat.zero_add]
  · show c.tail ≤ packet.length
    rw [h.tail]
    exact Nat.zero_le _
  · show (overwrite c.buffer c.head packet).take packet.length = packet
    rw [h.head]
    exact take_overwrite_zero c.buffer packet

end Connection

/-- The error message fits, so the client is closed whatever it was doing. -/
theorem notifyAndClose_closes (context : EventContext) {client : SavedConnection} (error : ServerError)
    (k : StreamSocket) (hopen : client.connection.socket.isSome)
    (hlength : client.connection.buffer.length = EncodedMessage.maxWireSize) :
    ∃ closed k', notifyAndClose context client error k = some (closed, k') ∧
      closed.connection.Cleared none ∧ closed.request = none := by
  obtain ⟨message, hmessage⟩ : ∃ message, errorMessage error.code context.memory = some message := ⟨_, rfl⟩
  have hfits : message.message.length ≤ EncodedMessage.maxWireSize := by
    rw [errorMessage_message hmessage, MessageHeader.length_serialize]
    decide
  have hcleared : client.connection.clear.Cleared client.connection.socket := ⟨rfl, hlength, rfl, rfl, rfl⟩
  obtain ⟨c, hsave, hcarries, -⟩ := hcleared.save hfits
  rcases hcarries.send hopen k with ⟨c', k', hsend, hafter, -⟩ | ⟨errno, c', k', hsend, hafter, -⟩
  · refine ⟨closeClient { client with connection := c' }, k', ?_, ⟨rfl, hafter.length, rfl, rfl, rfl⟩, rfl⟩
    simp only [notifyAndClose, hmessage, hsave, hsend, Option.bind_eq_bind, Option.bind_some]
    rfl
  · refine ⟨closeClient { client with connection := c' }, k', ?_, ⟨rfl, hafter.length, rfl, rfl, rfl⟩, rfl⟩
    simp only [notifyAndClose, hmessage, hsave, hsend, Option.bind_eq_bind, Option.bind_some]
    rfl

/-! ## What is streamed -/

/-- The bytes of `count` packets, from packet `first` on. -/
def stretch (bytes : Nat → List UInt8) (first count : Nat) : List UInt8 := (List.range' first count).flatMap bytes

theorem stretch_add (bytes : Nat → List UInt8) (first count more : Nat) :
    stretch bytes first (count + more) = stretch bytes first count ++ stretch bytes (first + count) more := by
  rw [stretch, stretch, stretch, ← List.flatMap_append, List.range'_append_1]

theorem stretch_one (bytes : Nat → List UInt8) (first : Nat) : stretch bytes first 1 = bytes first := by
  rw [stretch, List.range'_one, List.flatMap_singleton]

/-- Up to packet `last`, with a stop at packet `mid`. -/
theorem stretch_split (bytes : Nat → List UInt8) {first mid last : Nat} (hfirst : first ≤ mid)
    (hlast : mid ≤ last) :
    stretch bytes first (last - first) = stretch bytes first (mid - first) ++ stretch bytes mid (last - mid) := by
  have hcount : last - first = (mid - first) + (last - mid) := by omega
  rw [hcount, stretch_add, Nat.add_sub_cancel' hfirst]

/-- A part of packet `mid`, behind all the packets before it. -/
theorem stretch_stopped (bytes : Nat → List UInt8) {first mid last : Nat} (hfirst : first ≤ mid)
    (hlast : mid < last)
    (count : Nat) :
    stretch bytes first (mid - first) ++ (bytes mid).take count <+: stretch bytes first (last - first) := by
  have hnext : stretch bytes mid (last - mid) = bytes mid ++ stretch bytes (mid + 1) (last - (mid + 1)) := by
    rw [stretch_split bytes (Nat.le_succ mid) hlast, Nat.succ_sub (Nat.le_refl mid), Nat.sub_self, stretch_one]
  rw [stretch_split bytes hfirst (Nat.le_of_lt hlast), hnext]
  exact List.prefix_append_right_inj _ |>.mpr ((List.take_prefix _ _).trans (List.prefix_append _ _))

/-- The errors on which the server closes a client without a word. -/
def ServerError.closes : ServerError → Bool
  | .clientConnectionClosed | .packetTooOld | .invalidPacket | .packetUnavailable | .sendToClient => true
  | _ => false

variable {bytes : Nat → List UInt8} {socket : Option Nat} {last : UInt64} {first : Nat} {base : List UInt8}
  {chunks : List (List UInt8)} {cache : RetransmitCache}

/-- How `stream_packets` may end, with `base` handed over before packet `first`. -/
inductive Streamed (bytes : Nat → List UInt8) (socket : Option Nat) (last : UInt64) (first : Nat)
    (base : List UInt8) (chunks : List (List UInt8)) :
    Except ServerError Unit × SavedConnection × StreamSocket → Prop
  | done {client : SavedConnection} {k : StreamSocket} (hconnection : client.connection.Cleared socket)
      (hrequest : client.request = none) (hchunks : k.chunks = chunks)
      (hhanded : k.handed = base ++ stretch bytes first (last.toNat - first)) :
      Streamed bytes socket last first base chunks (.ok (), client, k)
  | blocked {client : SavedConnection} {k : StreamSocket} (packet : UInt64) (hfirst : first ≤ packet.toNat)
      (hlast : packet < last) (hconnection : client.connection.Carries socket (bytes packet.toNat))
      (hstatus : client.connection.status = .partialSend) (hrequest : client.request = some ⟨packet, last⟩)
      (hchunks : k.chunks = chunks)
      (hhanded : k.handed = base ++ (stretch bytes first (packet.toNat - first) ++
        (bytes packet.toNat).take client.connection.tail)) :
      Streamed bytes socket last first base chunks (.error .wouldBlock, client, k)
  | failed {client : SavedConnection} {k : StreamSocket} {error : ServerError} (herror : error.closes = true)
      (hsocket : client.connection.socket = socket)
      (hlength : client.connection.buffer.length = EncodedMessage.maxWireSize)
      (hhanded : k.handed <+: base ++ stretch bytes first (last.toNat - first)) :
      Streamed bytes socket last first base chunks (.error error, client, k)

/-- What was streamed from packet `mid` on goes behind the packets before it. -/
theorem Streamed.since {mid : Nat} (hfirst : first ≤ mid) (hlast : mid ≤ last.toNat)
    {r : Except ServerError Unit × SavedConnection × StreamSocket}
    (h : Streamed bytes socket last mid (base ++ stretch bytes first (mid - first)) chunks r) :
    Streamed bytes socket last first base chunks r := by
  cases h with
  | done hconnection hrequest hchunks hhanded =>
    refine .done hconnection hrequest hchunks ?_
    rw [hhanded, List.append_assoc, ← stretch_split bytes hfirst hlast]
  | blocked packet hmid hpacket hconnection hstatus hrequest hchunks hhanded =>
    refine .blocked packet (Nat.le_trans hfirst hmid) hpacket hconnection hstatus hrequest hchunks ?_
    rw [hhanded, stretch_split bytes hfirst hmid]
    simp only [List.append_assoc]
  | failed herror hsocket hlength hhanded =>
    refine .failed herror hsocket hlength ?_
    rw [stretch_split bytes hfirst hlast, ← List.append_assoc]
    exact hhanded

theorem Connection.sendError_cases (errno : Errno) :
    Connection.sendError errno = .wouldBlock ∨ (Connection.sendError errno).closes = true := by
  cases errno with
  | wouldBlock => exact Or.inl rfl
  | connReset | pipe | other => exact Or.inr rfl

/-- A send that fails within a packet. -/
theorem Streamed.of_error {packet : UInt64} (hlast : packet < last) (errno : Errno) {c : Connection}
    {k : StreamSocket} (hconnection : c.Carries socket (bytes packet.toNat)) (hstatus : c.status = .partialSend)
    (hchunks : k.chunks = chunks) (hhanded : k.handed = base ++ (bytes packet.toNat).take c.tail) :
    Streamed bytes socket last packet.toNat base chunks
      (.error (Connection.sendError errno), ⟨c, some ⟨packet, last⟩⟩, k) := by
  have hstretch : stretch bytes packet.toNat (packet.toNat - packet.toNat) = [] := by
    rw [Nat.sub_self, stretch, List.range'_zero, List.flatMap_nil]
  rcases Connection.sendError_cases errno with hblocked | hcloses
  · rw [hblocked]
    refine .blocked packet (Nat.le_refl _) hlast hconnection hstatus rfl hchunks ?_
    rw [hstretch, List.nil_append]
    exact hhanded
  · refine .failed hcloses hconnection.socket hconnection.length ?_
    have hpart := stretch_stopped bytes (Nat.le_refl packet.toNat) hlast c.tail
    rw [hstretch, List.nil_append] at hpart
    rw [hhanded]
    exact (List.prefix_append_right_inj base).mpr hpart

/-- The cache gives the packets from number `first` up to `last`, where it gives any. -/
def CacheGives (cache : RetransmitCache) (bytes : Nat → List UInt8) (first last : Nat) : Prop :=
  ∀ (number : UInt64) (m : MessageSlot), first ≤ number.toNat → number.toNat < last →
    cache.tryGetItem (number - firstSequenceId).toUInt32 = .ok m → m.val.message = bytes number.toNat

theorem MessageSlot.fits (m : MessageSlot) : m.val.message.length ≤ EncodedMessage.maxWireSize := by
  rw [EncodedMessage.message, List.length_take, m.property]
  exact Nat.min_le_right _ _

theorem streamLoop_streamed (hopen : socket.isSome) {rounds : Nat} {c : Connection} (request : RetransmitRequest)
    (k : StreamSocket) (hrounds : rounds = request.remaining) (hcleared : c.Cleared socket)
    (hgives : CacheGives cache bytes request.firstPacket.toNat request.lastPacket.toNat) :
    ∃ r, streamLoop cache rounds c request k = some r ∧
      Streamed bytes socket request.lastPacket request.firstPacket.toNat k.handed k.chunks r := by
  induction rounds generalizing c request k with
  | zero =>
    refine ⟨_, rfl, .done hcleared rfl rfl ?_⟩
    rw [← RetransmitRequest.remaining, ← hrounds, stretch, List.range'_zero, List.flatMap_nil, List.append_nil]
  | succ rounds ih =>
    rw [RetransmitRequest.remaining] at hrounds
    have hlt : request.firstPacket.toNat + 1 ≤ request.lastPacket.toNat := by omega
    have hlast : request.firstPacket < request.lastPacket := UInt64.lt_iff_toNat_lt.mpr hlt
    have hbound := request.lastPacket.toNat_lt
    have hnext : (request.firstPacket + 1).toNat = request.firstPacket.toNat + 1 := by
      rw [UInt64.toNat_add, UInt64.toNat_one]
      omega
    rw [streamLoop]
    split
    · rename_i error herror
      refine ⟨_, rfl, .failed ?_ hcleared.socket hcleared.length (List.prefix_append _ _)⟩
      cases error <;> rfl
    · rename_i m hm
      have hbytes := hgives request.firstPacket m (Nat.le_refl _) (by omega) hm
      obtain ⟨c', hsave, hcarries, htail⟩ := hcleared.save (MessageSlot.fits m)
      rw [hbytes] at hsave hcarries
      have hhanded : k.handed = k.handed ++ (bytes request.firstPacket.toNat).take c'.tail := by
        rw [htail, List.take_zero, List.append_nil]
      rw [hbytes]
      simp only [hsave, Option.bind_eq_bind, Option.bind_some]
      rcases hcarries.send hopen k with
        ⟨c'', k', hsend, hafter, hchunks, hhanded'⟩ | ⟨errno, c'', k', hsend, hafter, hstatus, hchunks, hhanded'⟩
      · simp only [hsend, Option.bind_some]
        have hleft : rounds = RetransmitRequest.remaining ⟨request.firstPacket + 1, request.lastPacket⟩ := by
          show rounds = request.lastPacket.toNat - (request.firstPacket + 1).toNat
          omega
        have hgives' : CacheGives cache bytes (request.firstPacket + 1).toNat request.lastPacket.toNat :=
          fun number m hfirst => hgives number m (by omega)
        obtain ⟨r, hr, hstreamed⟩ := ih ⟨request.firstPacket + 1, request.lastPacket⟩ k' hleft hafter hgives'
        refine ⟨r, hr, Streamed.since (Nat.le_succ _) hlt ?_⟩
        rw [Nat.succ_sub (Nat.le_refl _), Nat.sub_self, stretch_one, ← hhanded' _ hhanded, ← hchunks]
        rw [hnext] at hstreamed
        exact hstreamed
      · simp only [hsend, Option.bind_some]
        exact ⟨_, rfl, Streamed.of_error hlast errno hafter hstatus hchunks (hhanded' _ hhanded)⟩

/-- A request that has just been received. -/
theorem streamPackets_fresh (hopen : socket.isSome) {client : SavedConnection} {request : RetransmitRequest}
    (k : StreamSocket) (hcleared : client.connection.Cleared socket) (hrequest : client.request = some request)
    (hgives : CacheGives cache bytes request.firstPacket.toNat request.lastPacket.toNat) :
    ∃ r, streamPackets cache client k = some r ∧
      Streamed bytes socket request.lastPacket request.firstPacket.toNat k.handed k.chunks r := by
  have hsocket : client.connection.socket.isSome := by rw [hcleared.socket]; exact hopen
  have hstatus : client.connection.status ≠ .partialSend := by rw [hcleared.status]; exact nofun
  simp only [streamPackets, hrequest, Option.bind_eq_bind, Option.bind_some, if_pos hsocket, if_neg hstatus]
  split
  · exact ⟨_, rfl, .failed rfl hcleared.socket hcleared.length (List.prefix_append _ _)⟩
  · exact streamLoop_streamed hopen request k rfl hcleared hgives

/-- A request in the middle of a packet. -/
theorem streamPackets_resumed (hopen : socket.isSome) {client : SavedConnection} {packet : UInt64}
    (k : StreamSocket) (hlast : packet < last) (hcarries : client.connection.Carries socket (bytes packet.toNat))
    (hstatus : client.connection.status = .partialSend) (hrequest : client.request = some ⟨packet, last⟩)
    (hhanded : k.handed = base ++ (bytes packet.toNat).take client.connection.tail)
    (hgives : CacheGives cache bytes (packet.toNat + 1) last.toNat) :
    ∃ r, streamPackets cache client k = some r ∧
      Streamed bytes socket last packet.toNat base k.chunks r := by
  have hsocket : client.connection.socket.isSome := by rw [hcarries.socket]; exact hopen
  have hbound := last.toNat_lt
  have hlt : packet.toNat + 1 ≤ last.toNat := UInt64.lt_iff_toNat_lt.mp hlast
  have hnext : (packet + 1).toNat = packet.toNat + 1 := by
    rw [UInt64.toNat_add, UInt64.toNat_one]
    omega
  simp only [streamPackets, hrequest, Option.bind_eq_bind, Option.bind_some, if_pos hsocket, if_pos hstatus]
  split
  · refine ⟨_, rfl, .failed rfl hcarries.socket hcarries.length ?_⟩
    have hpart := stretch_stopped bytes (Nat.le_refl packet.toNat) hlt client.connection.tail
    rw [Nat.sub_self, stretch, List.range'_zero, List.flatMap_nil, List.nil_append] at hpart
    rw [hhanded]
    exact (List.prefix_append_right_inj base).mpr hpart
  · rcases hcarries.send hopen k with
      ⟨c', k', hsend, hafter, hchunks, hhanded'⟩ | ⟨errno, c', k', hsend, hafter, hstatus', hchunks, hhanded'⟩
    · simp only [hsend, Option.bind_some]
      have hgives' : CacheGives cache bytes (packet + 1).toNat last.toNat := by rw [hnext]; exact hgives
      obtain ⟨r, hr, hstreamed⟩ := streamLoop_streamed hopen ⟨packet + 1, last⟩ k' rfl hafter hgives'
      refine ⟨r, hr, Streamed.since (Nat.le_succ _) hlt ?_⟩
      rw [Nat.succ_sub (Nat.le_refl _), Nat.sub_self, stretch_one, ← hhanded' _ hhanded, ← hchunks]
      rw [hnext] at hstreamed
      exact hstreamed
    · simp only [hsend, Option.bind_some]
      exact ⟨_, rfl, Streamed.of_error hlast errno hafter hstatus' hchunks (hhanded' _ hhanded)⟩

/-! ## What an event comes to -/

/-- How the answer to a request may end. -/
inductive Answered (bytes : Nat → List UInt8) (socket : Option Nat) (last : UInt64) (first : Nat)
    (base : List UInt8) (chunks : List (List UInt8)) : Handled → Prop
  | done {h : Handled} (hclosed : h.closed = false) (hconnection : h.client.connection.Cleared socket)
      (hrequest : h.client.request = none) (hchunks : h.socket.chunks = chunks)
      (hhanded : h.streamed = base ++ stretch bytes first (last.toNat - first)) :
      Answered bytes socket last first base chunks h
  | blocked {h : Handled} (packet : UInt64) (hclosed : h.closed = false) (hfirst : first ≤ packet.toNat)
      (hlast : packet < last) (hconnection : h.client.connection.Carries socket (bytes packet.toNat))
      (hstatus : h.client.connection.status = .partialSend) (hrequest : h.client.request = some ⟨packet, last⟩)
      (hchunks : h.socket.chunks = chunks)
      (hhanded : h.streamed = base ++ (stretch bytes first (packet.toNat - first) ++
        (bytes packet.toNat).take h.client.connection.tail)) :
      Answered bytes socket last first base chunks h
  | closed {h : Handled} (hclosed : h.closed = true) (hconnection : h.client.connection.Cleared none)
      (hrequest : h.client.request = none)
      (hhanded : h.streamed <+: base ++ stretch bytes first (last.toNat - first)) :
      Answered bytes socket last first base chunks h

theorem Answered.since {mid : Nat} (hfirst : first ≤ mid) (hlast : mid ≤ last.toNat) {h : Handled}
    (hanswered : Answered bytes socket last mid (base ++ stretch bytes first (mid - first)) chunks h) :
    Answered bytes socket last first base chunks h := by
  cases hanswered with
  | done hclosed hconnection hrequest hchunks hhanded =>
    refine .done hclosed hconnection hrequest hchunks ?_
    rw [hhanded, List.append_assoc, ← stretch_split bytes hfirst hlast]
  | blocked packet hclosed hmid hpacket hconnection hstatus hrequest hchunks hhanded =>
    refine .blocked packet hclosed (Nat.le_trans hfirst hmid) hpacket hconnection hstatus hrequest hchunks ?_
    rw [hhanded, stretch_split bytes hfirst hmid]
    simp only [List.append_assoc]
  | closed hclosed hconnection hrequest hhanded =>
    refine .closed hclosed hconnection hrequest ?_
    rw [stretch_split bytes hfirst hlast, ← List.append_assoc]
    exact hhanded

theorem answerRequest_answered (hopen : socket.isSome) (context : EventContext) {client : SavedConnection}
    (received : Option RetransmitRequest) {k : StreamSocket}
    {r : Except ServerError Unit × SavedConnection × StreamSocket}
    (hstream : streamPackets context.cache client k = some r)
    (hstreamed : Streamed bytes socket last first base chunks r) :
    ∃ h, answerRequest context client received k = some h ∧ h.received = received ∧
      Answered bytes socket last first base chunks h := by
  cases hstreamed with
  | done hconnection hrequest hchunks hhanded =>
    simp only [answerRequest, hstream, Option.bind_eq_bind, Option.bind_some]
    exact ⟨_, rfl, rfl, .done rfl hconnection hrequest hchunks hhanded⟩
  | @blocked client' k' packet hfirst hlast hconnection hstatus hrequest hchunks hhanded =>
    simp only [answerRequest, hstream, Option.bind_eq_bind, Option.bind_some]
    split
    · exact ⟨_, rfl, rfl, .blocked packet rfl hfirst hlast hconnection hstatus hrequest hchunks hhanded⟩
    · have hsocket : client'.connection.socket.isSome := by rw [hconnection.socket]; exact hopen
      obtain ⟨closed, k'', hclose, hcleared, hnone⟩ :=
        notifyAndClose_closes context .clientConnection k' hsocket hconnection.length
      simp only [hclose, Option.bind_some]
      refine ⟨_, rfl, rfl, .closed rfl hcleared hnone ?_⟩
      rw [hhanded]
      exact (List.prefix_append_right_inj base).mpr (stretch_stopped bytes hfirst hlast _)
  | @failed client' k' error herror hsocket hlength hhanded =>
    have hcleared : (closeClient client').connection.Cleared none := ⟨rfl, hlength, rfl, rfl, rfl⟩
    simp only [answerRequest, hstream, Option.bind_eq_bind, Option.bind_some]
    cases error with
    | clientConnectionClosed | packetTooOld | invalidPacket | packetUnavailable | sendToClient =>
      exact ⟨_, rfl, rfl, .closed rfl hcleared rfl hhanded⟩
    | clientConnection | serverFatal | serverBusy | setSocketNonblocking | wouldBlock | receiveFromClient
    | newConnection | registerEvent | eventQueue => cases herror

/-! ## What is received -/

namespace Connection

/-- Waiting for a request of which some bytes have been received. -/
def Awaits (socket : Option Nat) (got : List UInt8) (c : Connection) : Prop :=
  (c.Cleared socket ∧ got = []) ∨ c.Receives socket got

/-- The connection as `receive` makes it ready. -/
def armed (c : Connection) : Connection :=
  if c.status = .clear then { c with head := RetransmitRequest.packedSize, status := .partialReceive } else c

variable {c : Connection} {got : List UInt8} {k : StreamSocket}

theorem Awaits.armed (h : c.Awaits socket got) : c.armed.Receives socket got := by
  rcases h with ⟨h, rfl⟩ | h
  · rw [Connection.armed, if_pos h.status]
    exact ⟨h.socket, h.length, rfl, rfl, h.tail, Nat.zero_le _, rfl⟩
  · rw [Connection.armed, if_neg (by rw [h.status]; exact nofun)]
    exact h

theorem Awaits.guard (h : c.Awaits socket got) (hopen : socket.isSome) :
    c.socket.isSome ∧ (c.status = .clear ∧ RetransmitRequest.packedSize ≤ c.buffer.length ∨
      c.status = .partialReceive) := by
  rcases h with ⟨h, -⟩ | h
  · refine ⟨by rw [h.socket]; exact hopen, Or.inl ⟨h.status, ?_⟩⟩
    rw [h.length]
    decide
  · exact ⟨by rw [h.socket]; exact hopen, Or.inr h.status⟩

/-- What was got, and behind it what is written there. -/
theorem Receives.take_overwrite (h : c.Receives socket got) (more : List UInt8) :
    (overwrite c.buffer got.length more).take (got.length + more.length) = got ++ more := by
  rw [overwrite, h.buffer]
  exact List.take_left' (by rw [List.length_append])

/-- The range that `receive` fills. -/
def range (c : Connection) (k : StreamSocket) : ReceivedRange :=
  recvRange k.recvEnd k.chunks c.buffer c.tail c.head

/-- The connection after the range. -/
def filled (c : Connection) (k : StreamSocket) : Connection :=
  { c with buffer := (c.range k).buffer, tail := (c.range k).start }

theorem Awaits.receive_eq (h : c.Awaits socket got) (hopen : socket.isSome) (k : StreamSocket) :
    c.receive RetransmitRequest.packedSize k =
      match (c.armed.range k).status with
      | .success => some (.ok ((c.armed.range k).buffer.take c.armed.head), (c.armed.filled k).clear,
          { k with chunks := (c.armed.range k).chunks })
      | .connectionClosed => some (.error .clientConnectionClosed, c.armed.filled k,
          { k with chunks := (c.armed.range k).chunks })
      | .error .wouldBlock => some (.error .wouldBlock, c.armed.filled k,
          { k with chunks := (c.armed.range k).chunks })
      | .error _ => some (.error .receiveFromClient, c.armed.filled k,
          { k with chunks := (c.armed.range k).chunks }) := by
  rw [receive, if_pos (h.guard hopen)]
  rfl

theorem Receives.range_bounds (h : c.Receives socket got) (k : StreamSocket) :
    (c.range k).buffer.length = EncodedMessage.maxWireSize ∧
      (c.range k).start ≤ RetransmitRequest.packedSize := by
  have hroom : RetransmitRequest.packedSize ≤ c.buffer.length := by rw [h.length]; decide
  obtain ⟨hlength, hstart⟩ := recvRange_bounds k.recvEnd k.chunks h.short hroom
  rw [range, h.tail, h.head]
  exact ⟨hlength.trans h.length, hstart⟩

/-- However the range ended, the connection holds what was received. -/
theorem Receives.filled (h : c.Receives socket got) (k : StreamSocket) :
    (c.filled k).Receives socket ((c.range k).buffer.take (c.range k).start) := by
  obtain ⟨hlength, hstart⟩ := h.range_bounds k
  have htake : ((c.range k).buffer.take (c.range k).start).length = (c.range k).start :=
    List.length_take_of_le (Nat.le_trans hstart (by rw [hlength]; decide))
  refine ⟨h.socket, hlength, h.status, h.head, htake.symm, by rw [htake]; exact hstart, ?_⟩
  rw [htake]
  rfl

theorem Receives.range_enough (h : c.Receives socket got) (harrived : Arrived k.chunks)
    (henough : RetransmitRequest.packedSize ≤ got.length + k.chunks.flatten.length) :
    (c.range k).status = .success ∧ Arrived (c.range k).chunks ∧
      got ++ k.chunks.flatten =
        (c.range k).buffer.take RetransmitRequest.packedSize ++ (c.range k).chunks.flatten := by
  have hshort := h.short
  have hroom : RetransmitRequest.packedSize ≤ c.buffer.length := by rw [h.length]; decide
  obtain ⟨chunks', hrange, harrived', hrest⟩ := recvRange_enough k.recvEnd harrived hshort hroom (by omega)
  have hlength : (k.chunks.flatten.take (RetransmitRequest.packedSize - got.length)).length =
      RetransmitRequest.packedSize - got.length := List.length_take_of_le (by omega)
  have htake := h.take_overwrite (k.chunks.flatten.take (RetransmitRequest.packedSize - got.length))
  rw [hlength, Nat.add_sub_cancel' hshort] at htake
  rw [range, h.tail, h.head, hrange]
  refine ⟨rfl, harrived', ?_⟩
  show _ = (overwrite c.buffer got.length _).take RetransmitRequest.packedSize ++ chunks'.flatten
  rw [htake, hrest, List.append_assoc, List.take_append_drop]

theorem Receives.range_short (h : c.Receives socket got) (harrived : Arrived k.chunks)
    (hfew : got.length + k.chunks.flatten.length < RetransmitRequest.packedSize) :
    (c.range k).status = k.recvEnd.status ∧ (c.range k).chunks = [] ∧
      (c.range k).buffer.take (c.range k).start = got ++ k.chunks.flatten := by
  have hroom : RetransmitRequest.packedSize ≤ c.buffer.length := by rw [h.length]; decide
  rw [range, h.tail, h.head, recvRange_short k.recvEnd harrived hroom (by omega)]
  exact ⟨rfl, rfl, h.take_overwrite k.chunks.flatten⟩

/-- A range that was not filled took all there was. -/
theorem Receives.range_stopped (h : c.Receives socket got) (harrived : Arrived k.chunks)
    (hstopped : (c.range k).status ≠ .success) :
    (c.range k).chunks = [] ∧ (c.range k).buffer.take (c.range k).start = got ++ k.chunks.flatten := by
  by_cases henough : RetransmitRequest.packedSize ≤ got.length + k.chunks.flatten.length
  · exact absurd (h.range_enough harrived henough).1 hstopped
  · exact (h.range_short harrived (Nat.lt_of_not_le henough)).2

end Connection

/-- How `receive_request` may end. What is known of the bytes holds if they come in chunks. -/
inductive Requested (socket : Option Nat) (got : List UInt8) (k : StreamSocket) :
    Except ServerError Unit × SavedConnection × StreamSocket → Prop
  | complete {client : SavedConnection} {k' : StreamSocket} (request : RetransmitRequest)
      (hconnection : client.connection.Cleared socket) (hrequest : client.request = some request)
      (hhanded : k'.handed = k.handed)
      (hbytes : Arrived k.chunks → Arrived k'.chunks ∧
        got ++ k.chunks.flatten = request.serialize ++ k'.chunks.flatten) :
      Requested socket got k (.ok (), client, k')
  | waiting {client : SavedConnection} {k' : StreamSocket} {error : ServerError} (got' : List UInt8)
      (herror : error = .wouldBlock ∨ error = .clientConnectionClosed ∨ error = .receiveFromClient)
      (hconnection : client.connection.Receives socket got') (hrequest : client.request = none)
      (hhanded : k'.handed = k.handed)
      (hbytes : Arrived k.chunks → k'.chunks = [] ∧ got' = got ++ k.chunks.flatten) :
      Requested socket got k (.error error, client, k')

theorem receiveRequest_requested (hopen : socket.isSome) {client : SavedConnection} {got : List UInt8}
    (k : StreamSocket) (hawaits : client.connection.Awaits socket got) (hrequest : client.request = none) :
    ∃ r, receiveRequest client k = some r ∧ Requested socket got k r := by
  have harmed := hawaits.armed
  obtain ⟨hlength, -⟩ := harmed.range_bounds k
  have hreceive := hawaits.receive_eq hopen k
  cases hstatus : (client.connection.armed.range k).status with
  | success =>
    rw [hstatus, harmed.head] at hreceive
    have hsize : ((client.connection.armed.range k).buffer.take RetransmitRequest.packedSize).length =
        RetransmitRequest.packedSize := List.length_take_of_le (by rw [hlength]; decide)
    obtain ⟨request, hparse⟩ : ∃ request, RetransmitRequest.parse
        ((client.connection.armed.range k).buffer.take RetransmitRequest.packedSize) = some request :=
      ⟨_, if_pos hsize⟩
    refine ⟨(.ok (), ⟨(client.connection.armed.filled k).clear, some request⟩,
      { k with chunks := (client.connection.armed.range k).chunks }), ?_,
      .complete request ⟨harmed.socket, hlength, rfl, rfl, rfl⟩ rfl rfl ?_⟩
    · simp only [receiveRequest, hreceive, hparse, Option.bind_eq_bind, Option.bind_some]
      rfl
    · intro harrived
      rw [RetransmitRequest.serialize_of_parse hparse]
      by_cases henough : RetransmitRequest.packedSize ≤ got.length + k.chunks.flatten.length
      · exact (harmed.range_enough harrived henough).2
      · have hend := (harmed.range_short harrived (Nat.lt_of_not_le henough)).1
        rw [hstatus] at hend
        cases hafter : k.recvEnd <;> rw [hafter] at hend <;> cases hend
  | connectionClosed =>
    rw [hstatus] at hreceive
    refine ⟨(.error .clientConnectionClosed, ⟨client.connection.armed.filled k, client.request⟩,
      { k with chunks := (client.connection.armed.range k).chunks }), ?_,
      .waiting _ (Or.inr (Or.inl rfl)) (harmed.filled k) hrequest rfl ?_⟩
    · simp only [receiveRequest, hreceive, Option.bind_eq_bind, Option.bind_some]
      rfl
    · exact fun harrived => harmed.range_stopped harrived (by rw [hstatus]; exact nofun)
  | error errno =>
    rw [hstatus] at hreceive
    cases errno with
    | wouldBlock =>
      refine ⟨(.error .wouldBlock, ⟨client.connection.armed.filled k, client.request⟩,
        { k with chunks := (client.connection.armed.range k).chunks }), ?_,
        .waiting _ (Or.inl rfl) (harmed.filled k) hrequest rfl ?_⟩
      · simp only [receiveRequest, hreceive, Option.bind_eq_bind, Option.bind_some]
        rfl
      · exact fun harrived => harmed.range_stopped harrived (by rw [hstatus]; exact nofun)
    | connReset | pipe | other =>
      refine ⟨(.error .receiveFromClient, ⟨client.connection.armed.filled k, client.request⟩,
        { k with chunks := (client.connection.armed.range k).chunks }), ?_,
        .waiting _ (Or.inr (Or.inr rfl)) (harmed.filled k) hrequest rfl ?_⟩
      · simp only [receiveRequest, hreceive, Option.bind_eq_bind, Option.bind_some]
        rfl
      · exact fun harrived => harmed.range_stopped harrived (by rw [hstatus]; exact nofun)

/-! ## One event of a client -/

/-- What the cache gives now. -/
def cachedBytes (cache : RetransmitCache) (number : Nat) : List UInt8 :=
  match cache.tryGetItem (UInt64.ofNat number - firstSequenceId).toUInt32 with
  | .ok m => m.val.message
  | .error _ => []

theorem cacheGives_cachedBytes (cache : RetransmitCache) (first last : Nat) :
    CacheGives cache (cachedBytes cache) first last := by
  intro number m _ _ hm
  rw [cachedBytes, UInt64.ofNat_toNat, hm]

/-- How an event of a client may end that waits for a request. -/
inductive Attended (context : EventContext) (socket : Option Nat) (got : List UInt8) (k : StreamSocket) :
    Handled → Prop
  | waiting {h : Handled} (got' : List UInt8) (hreceived : h.received = none) (hclosed : h.closed = false)
      (hconnection : h.client.connection.Receives socket got') (hrequest : h.client.request = none)
      (hstreamed : h.streamed = k.handed)
      (hbytes : Arrived k.chunks → h.socket.chunks = [] ∧ got' = got ++ k.chunks.flatten) :
      Attended context socket got k h
  | closed {h : Handled} (hreceived : h.received = none) (hclosed : h.closed = true)
      (hconnection : h.client.connection.Cleared none) (hrequest : h.client.request = none)
      (hstreamed : h.streamed = k.handed) : Attended context socket got k h
  | answered {h : Handled} (request : RetransmitRequest) (chunks : List (List UInt8))
      (hreceived : h.received = some request)
      (hbytes : Arrived k.chunks → Arrived chunks ∧
        got ++ k.chunks.flatten = request.serialize ++ chunks.flatten)
      (hanswered : ∀ bytes, CacheGives context.cache bytes request.firstPacket.toNat request.lastPacket.toNat →
        Answered bytes socket request.lastPacket request.firstPacket.toNat k.handed chunks h) :
      Attended context socket got k h

section Reading

variable {context : EventContext} {client client' : SavedConnection} {k k' : StreamSocket}
  (hstatus : client.connection.status = .clear ∨ client.connection.status = .partialReceive)
include hstatus

theorem handleRequest_received (hreceive : receiveRequest client k = some (.ok (), client', k')) :
    handleRequest context client k = answerRequest context client' client'.request k' := by
  rcases hstatus with hstatus | hstatus
  · rw [handleRequest, hstatus]
    simp only [hreceive, Option.bind_eq_bind, Option.bind_some]
  · rw [handleRequest, hstatus]
    simp only [hreceive, Option.bind_eq_bind, Option.bind_some]

theorem handleRequest_waits (hreceive : receiveRequest client k = some (.error .wouldBlock, client', k')) :
    handleRequest context client k = some ⟨.ok (), client', k', false, none, k'.handed⟩ := by
  rcases hstatus with hstatus | hstatus
  · rw [handleRequest, hstatus]
    simp only [hreceive, Option.bind_eq_bind, Option.bind_some, Option.pure_def]
  · rw [handleRequest, hstatus]
    simp only [hreceive, Option.bind_eq_bind, Option.bind_some, Option.pure_def]

theorem handleRequest_closed
    (hreceive : receiveRequest client k = some (.error .clientConnectionClosed, client', k')) :
    handleRequest context client k =
      some ⟨.error .clientConnectionClosed, closeClient client', k', true, none, k'.handed⟩ := by
  rcases hstatus with hstatus | hstatus
  · rw [handleRequest, hstatus]
    simp only [hreceive, Option.bind_eq_bind, Option.bind_some, Option.pure_def]
  · rw [handleRequest, hstatus]
    simp only [hreceive, Option.bind_eq_bind, Option.bind_some, Option.pure_def]

theorem handleRequest_failed {closed : SavedConnection} {k'' : StreamSocket}
    (hreceive : receiveRequest client k = some (.error .receiveFromClient, client', k'))
    (hclose : notifyAndClose context client' .clientConnection k' = some (closed, k'')) :
    handleRequest context client k = some ⟨.error .receiveFromClient, closed, k'', true, none, k'.handed⟩ := by
  rcases hstatus with hstatus | hstatus
  · rw [handleRequest, hstatus]
    simp only [hreceive, hclose, Option.bind_eq_bind, Option.bind_some, Option.pure_def]
  · rw [handleRequest, hstatus]
    simp only [hreceive, hclose, Option.bind_eq_bind, Option.bind_some, Option.pure_def]

end Reading

theorem handleRequest_awaiting (hopen : socket.isSome) (context : EventContext) {client : SavedConnection}
    {got : List UInt8} (k : StreamSocket) (hawaits : client.connection.Awaits socket got)
    (hrequest : client.request = none) :
    ∃ h, handleRequest context client k = some h ∧ Attended context socket got k h := by
  obtain ⟨r, hreceive, hrequested⟩ := receiveRequest_requested hopen k hawaits hrequest
  have hstatus : client.connection.status = .clear ∨ client.connection.status = .partialReceive := by
    rcases hawaits with ⟨hcleared, -⟩ | hreceives
    · exact Or.inl hcleared.status
    · exact Or.inr hreceives.status
  cases hrequested with
  | @complete client' k' request hconnection hrequest' hhanded hbytes =>
    have hanswer : ∀ bytes, CacheGives context.cache bytes request.firstPacket.toNat request.lastPacket.toNat →
        ∃ h, answerRequest context client' client'.request k' = some h ∧ h.received = client'.request ∧
          Answered bytes socket request.lastPacket request.firstPacket.toNat k'.handed k'.chunks h := by
      intro bytes hgives
      obtain ⟨r, hstream, hstreamed⟩ := streamPackets_fresh hopen k' hconnection hrequest' hgives
      exact answerRequest_answered hopen context client'.request hstream hstreamed
    rw [handleRequest_received hstatus hreceive]
    obtain ⟨h, hh, hreceived, -⟩ := hanswer _ (cacheGives_cachedBytes context.cache _ _)
    refine ⟨h, hh, .answered request k'.chunks (hreceived.trans hrequest') hbytes ?_⟩
    intro bytes hgives
    obtain ⟨h', hh', -, hanswered⟩ := hanswer bytes hgives
    rw [hh] at hh'
    cases hh'
    rw [← hhanded]
    exact hanswered
  | @waiting client' k' error got' herror hconnection hrequest' hhanded hbytes =>
    rcases herror with rfl | rfl | rfl
    · exact ⟨_, handleRequest_waits hstatus hreceive, .waiting got' rfl rfl hconnection hrequest' hhanded hbytes⟩
    · exact ⟨_, handleRequest_closed hstatus hreceive,
        .closed rfl rfl ⟨rfl, hconnection.length, rfl, rfl, rfl⟩ rfl hhanded⟩
    · have hsocket : client'.connection.socket.isSome := by rw [hconnection.socket]; exact hopen
      obtain ⟨closed, k'', hclose, hcleared, hnone⟩ :=
        notifyAndClose_closes context .clientConnection k' hsocket hconnection.length
      exact ⟨_, handleRequest_failed hstatus hreceive hclose, .closed rfl rfl hcleared hnone hhanded⟩

theorem handleRequest_sending (hopen : socket.isSome) (context : EventContext) {client : SavedConnection}
    {packet : UInt64} (k : StreamSocket) (hlast : packet < last)
    (hcarries : client.connection.Carries socket (bytes packet.toNat))
    (hstatus : client.connection.status = .partialSend) (hrequest : client.request = some ⟨packet, last⟩)
    (hhanded : k.handed = base ++ (bytes packet.toNat).take client.connection.tail)
    (hgives : CacheGives context.cache bytes (packet.toNat + 1) last.toNat) :
    ∃ h, handleRequest context client k = some h ∧ h.received = none ∧
      Answered bytes socket last packet.toNat base k.chunks h := by
  obtain ⟨r, hstream, hstreamed⟩ := streamPackets_resumed hopen k hlast hcarries hstatus hrequest hhanded hgives
  rw [handleRequest, hstatus]
  exact answerRequest_answered hopen context none hstream hstreamed

end HftPipeline
