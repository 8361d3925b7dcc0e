import HftPipeline.MarketDataHandler

/-!
# Delivery

Whatever the network loses, repeats or reorders, the published events are the
events of the feed, in order. Every number up to the most recent one is consumed,
written or still asked for, so when nothing is on its way and no thread has
reported an error, all of them are published.
-/
namespace HftPipeline

open ReorderBuffer

namespace Feed

variable (feed : Feed)

/-- The header of the packet with a number. -/
def header (number : Nat) : MessageHeader := ⟨UInt64.ofNat number, UInt16.ofNat BinaryProtocol.bufferSize⟩

/-- `item` is the encoded event of a number. -/
def Item (number : Nat) (item : List UInt8) : Prop :=
  ∃ event, 1 ≤ number ∧ feed.events[number - 1]? = some event ∧ item = BinaryProtocol.encode event

/-- A buffer that starts with the packet of a number. -/
def Carries (number : Nat) (buffer : List UInt8) : Prop :=
  ∃ item rest, feed.Item number item ∧ buffer = (header number).serialize ++ (item ++ rest)

/-- A message with its header decoded. -/
def IsPacket (number : Nat) (m : EncodedMessage) : Prop :=
  m.header = header number ∧ feed.Carries number m.buffer

variable {feed}

theorem Item.bounds {number : Nat} {item : List UInt8} (h : feed.Item number item) :
    1 ≤ number ∧ number ≤ feed.events.length ∧ item.length = BinaryProtocol.bufferSize := by
  obtain ⟨event, hpos, hevent, rfl⟩ := h
  have hlt := (List.getElem?_eq_some_iff.mp hevent).1
  exact ⟨hpos, by omega, by simp⟩

theorem toNat_number {number : Nat} {item : List UInt8} (h : feed.Item number item) :
    (UInt64.ofNat number).toNat = number := by
  have hle := h.bounds.2.1
  have hfits := feed.fits
  rw [UInt64.toNat_ofNat']
  exact Nat.mod_eq_of_lt (by omega)

theorem Carries.item {number : Nat} {buffer : List UInt8} (h : feed.Carries number buffer) :
    ∃ item, feed.Item number item := by
  obtain ⟨item, _, hitem, _⟩ := h
  exact ⟨item, hitem⟩

theorem Carries.toNat {number : Nat} {buffer : List UInt8} (h : feed.Carries number buffer) :
    (header number).sequenceNumber.toNat = number := by
  obtain ⟨item, hitem⟩ := h.item
  exact toNat_number hitem

theorem Carries.ne_zero {number : Nat} {buffer : List UInt8} (h : feed.Carries number buffer) :
    (header number).sequenceNumber ≠ 0 := by
  intro hzero
  have hnumber := h.toNat
  obtain ⟨item, hitem⟩ := h.item
  have hpos := hitem.bounds.1
  rw [hzero] at hnumber
  simp only [UInt64.toNat_zero] at hnumber
  omega

theorem Carries.decode {number : Nat} (slot : EncodedMessage) (h : feed.Carries number slot.buffer) :
    feed.IsPacket number slot.decodeHeaderFromBuffer := by
  obtain ⟨old, buffer⟩ := slot
  obtain ⟨item, rest, hitem, hbuffer⟩ := h
  simp only at hbuffer
  subst hbuffer
  rw [decodeHeaderFromBuffer_eq]
  exact ⟨rfl, item, rest, hitem, rfl⟩

theorem Carries.unique {i j : Nat} {buffer : List UInt8} (hi : feed.Carries i buffer)
    (hj : feed.Carries j buffer) : i = j := by
  have hslot : (EncodedMessage.decodeHeaderFromBuffer ⟨header i, buffer⟩).header = header i :=
    (Carries.decode ⟨header i, buffer⟩ hi).1
  have hheader := (Carries.decode ⟨header i, buffer⟩ hj).1
  rw [hslot] at hheader
  rw [← hi.toNat, ← hj.toNat, hheader]

theorem IsPacket.payload {number : Nat} {m : EncodedMessage} (h : feed.IsPacket number m) :
    ∃ item, feed.Item number item ∧ m.getPayloadRef = some item := by
  obtain ⟨hd, buffer⟩ := m
  obtain ⟨hheader, item, rest, hitem, hbuffer⟩ := h
  simp only at hheader hbuffer
  subst hheader hbuffer
  obtain ⟨event, hpos, hevent, rfl⟩ := hitem
  exact ⟨_, ⟨event, hpos, hevent, rfl⟩, getPayloadRef_eq _ _ _ rfl⟩

/-- What goes over the wire for a packet. -/
theorem IsPacket.message {number : Nat} {m : EncodedMessage} (h : feed.IsPacket number m) :
    ∃ item, feed.Item number item ∧ m.message = (header number).serialize ++ item := by
  have hne := h.2.ne_zero
  obtain ⟨hd, buffer⟩ := m
  obtain ⟨hheader, item, rest, hitem, hbuffer⟩ := h
  simp only at hheader hbuffer
  subst hheader hbuffer
  refine ⟨item, hitem, ?_⟩
  have hlen : ((header number).serialize ++ item).length = (header number).wireSize := by
    rw [List.length_append, MessageHeader.length_serialize, hitem.bounds.2.2, MessageHeader.wireSize,
      if_neg hne]
    rfl
  rw [EncodedMessage.message, ← hlen, ← List.append_assoc, List.take_left]

theorem IsPacket.receiveDatagram {number : Nat} {m : EncodedMessage} (h : feed.IsPacket number m)
    (slot : EncodedMessage) : feed.Carries number (slot.receiveDatagram m.message).buffer := by
  obtain ⟨item, hitem, hmessage⟩ := h.message
  have hshort : m.message.length ≤ EncodedMessage.maxWireSize := by
    rw [hmessage, List.length_append, MessageHeader.length_serialize, hitem.bounds.2.2]
    decide
  refine ⟨item, slot.buffer.drop (0 + m.message.length), hitem, ?_⟩
  rw [EncodedMessage.receiveDatagram, List.take_of_length_le hshort, overwrite, hmessage]
  simp

theorem IsPacket.receiveStream {number : Nat} {m : EncodedMessage} (h : feed.IsPacket number m)
    (memory : EncodedMessage) :
    ∃ newMessage, memory.receiveStream m.message = some (.ok newMessage) ∧
      feed.IsPacket number newMessage := by
  have hne := h.2.ne_zero
  obtain ⟨item, hitem, hmessage⟩ := h.message
  have hlen := hitem.bounds.2.2
  have htake : m.message.take MessageHeader.packedWireSize = (header number).serialize := by
    rw [hmessage]
    exact List.take_left' (MessageHeader.length_serialize _)
  have hfield : field m.message MessageHeader.packedWireSize BinaryProtocol.bufferSize = item := by
    have := field_append (header number).serialize item []
    rw [List.append_nil, MessageHeader.length_serialize, hlen] at this
    rw [hmessage, this]
  have hheaded : EncodedMessage.decodeHeaderFromBuffer
      { memory with buffer := overwrite memory.buffer 0 (m.message.take MessageHeader.packedWireSize) } =
      ⟨header number, (header number).serialize ++ memory.buffer.drop 10⟩ := by
    rw [htake, overwrite, MessageHeader.length_serialize]
    exact decodeHeaderFromBuffer_eq _ _ _
  have hsize : (header number).payloadLength.toNat = BinaryProtocol.bufferSize := rfl
  have hbound : 0 < BinaryProtocol.bufferSize ∧ BinaryProtocol.bufferSize ≤ maxMessageBytes := by decide
  refine ⟨⟨header number, (header number).serialize ++
    (item ++ (memory.buffer.drop 10).drop BinaryProtocol.bufferSize)⟩, ?_, rfl, item, _, hitem, rfl⟩
  rw [EncodedMessage.receiveStream, hheaded]
  simp only [hne, if_false, hsize, hbound, and_self, if_true, overwrite, hfield]
  rw [List.take_left' (MessageHeader.length_serialize _), hlen, ← List.drop_drop,
    List.drop_left' (MessageHeader.length_serialize _), List.append_assoc]

/-- The next message of the exchange is the packet of its number. -/
theorem generateMessage_isPacket (feed : Feed) (number : Nat) {event : MarketEvent} {memory : List UInt8}
    (hpos : 1 ≤ number) (hevent : feed.events[number - 1]? = some event)
    (hmemory : memory.length = EncodedMessage.maxWireSize) :
    ∃ m, (⟨UInt64.ofNat number⟩ : Sequencer).generateMessage event memory =
      some (m, ⟨UInt64.ofNat (number + 1)⟩) ∧ feed.IsPacket number m := by
  refine ⟨⟨header number, (header number).serialize ++ (BinaryProtocol.encode event ++ memory.drop 28)⟩,
    ?_, rfl, _, _, ⟨event, hpos, hevent, rfl⟩, rfl⟩
  rw [Sequencer.generateMessage_eq _ _ hmemory, UInt64.ofNat_add]
  rfl

end Feed

/-! ## The invariant -/

/-- The request still covers a number. -/
def RetransmitRequest.Asks (request : RetransmitRequest) (number : Nat) : Prop :=
  request.firstPacket.toNat ≤ number ∧ number < request.lastPacket.toNat

/-- The packet of a number is the next in the packet buffer, with its header decoded. -/
def Feed.AtTail (feed : Feed) (packets : List EncodedMessage) (number : Nat) : Prop :=
  ∃ packet slots, packets = packet :: slots ∧ feed.IsPacket number packet

theorem Feed.AtTail.append {feed : Feed} {packets : List EncodedMessage} {number : Nat}
    (h : feed.AtTail packets number) (more : List EncodedMessage) :
    feed.AtTail (packets ++ more) number := by
  obtain ⟨packet, slots, rfl, hpacket⟩ := h
  exact ⟨packet, slots ++ more, rfl, hpacket⟩

namespace HandlerPc

/-- The handler will push a request for the number, write its packet or report that
it could not. -/
def InHand (feed : Feed) (packets : List EncodedMessage) (number : Nat) : HandlerPc → Prop
  | .pushing request => request.Asks number ∨ feed.AtTail packets number
  | .writing | .consuming (.error _) => feed.AtTail packets number
  | .waiting | .consuming (.ok _) | .stopped => False

/-- Where the handler stands. The number of its packet is at most the most recent
one, and that one has a successor before the handler waits again. -/
def At (feed : Feed) (packets : List EncodedMessage) (recent : Nat) (failed : Prop) : HandlerPc → Prop
  | .waiting => recent + 1 < 2 ^ 64
  | .pushing request => request.lastPacket.toNat = recent ∧ feed.AtTail packets recent
  | .writing => ∃ number, feed.AtTail packets number ∧ number ≤ recent ∧
      (number = recent ∨ recent + 1 < 2 ^ 64)
  | .consuming result => ∃ number, feed.AtTail packets number ∧ number ≤ recent ∧
      (result = .ok () → recent + 1 < 2 ^ 64)
  | .stopped => failed

variable {feed : Feed} {packets : List EncodedMessage} {number recent : Nat} {failed : Prop} {pc : HandlerPc}

theorem InHand.append (h : pc.InHand feed packets number) (more : List EncodedMessage) :
    pc.InHand feed (packets ++ more) number := by
  cases pc with
  | pushing request => exact h.imp_right fun h => h.append more
  | writing => exact Feed.AtTail.append h more
  | consuming result =>
    cases result with
    | error error => exact Feed.AtTail.append h more
    | ok _ => exact h
  | waiting => exact h
  | stopped => exact h

theorem At.append (h : pc.At feed packets recent failed) (more : List EncodedMessage) :
    pc.At feed (packets ++ more) recent failed := by
  cases pc with
  | pushing request => exact ⟨h.1, h.2.append more⟩
  | writing =>
    obtain ⟨number, htail, hle, hrecent⟩ := h
    exact ⟨number, htail.append more, hle, hrecent⟩
  | consuming result =>
    obtain ⟨number, htail, hle, hrecent⟩ := h
    exact ⟨number, htail.append more, hle, hrecent⟩
  | waiting => exact h
  | stopped => exact h

end HandlerPc

namespace ClientPc

/-- The request the client is working on. -/
def request : ClientPc → Option RetransmitRequest
  | .sending request | .receiving request | .writing request _ => some request
  | .waiting | .stopped => none

def At (feed : Feed) (failed : Prop) : ClientPc → Prop
  | .waiting | .sending _ => True
  | .receiving request => request.firstPacket < request.lastPacket
  | .writing request newMessage => request.firstPacket < request.lastPacket ∧
      feed.IsPacket request.firstPacket.toNat newMessage
  | .stopped => failed

end ClientPc

/-- The events taken out of the reorder buffer are the first events of the feed. -/
def PublisherPc.At (feed : Feed) (published : List MarketEvent) (taken : Nat) : PublisherPc → Prop
  | .waiting => published = feed.events.take taken
  | .publishing item => ∃ event, item = BinaryProtocol.encode event ∧
      published ++ [event] = feed.events.take taken

namespace System

variable (s : System) (feed : Feed)

def mostRecent : Nat := s.gapDetector.mostRecentPacketId.toNat

/-- A request in the buffer or with the client. -/
def Requested (request : RetransmitRequest) : Prop :=
  request ∈ s.retransmitRequestBuffer ∨ s.client.request = some request

/-- The number is consumed, written or on its way. -/
def Covered (number : Nat) : Prop :=
  number < s.reorderBuffer.readerIndex ∨ s.reorderBuffer.Written number ∨
    (∃ request, s.Requested request ∧ request.Asks number) ∨ s.handler.InHand feed s.udpPacketBuffer number

structure Invariant : Prop where
  counter : s.sequencer = ⟨UInt64.ofNat (s.retransmitCache.length + 1)⟩
  cache : ∀ k m, s.retransmitCache[k]? = some m → feed.IsPacket (k + 1) m
  packets : ∀ slot ∈ s.udpPacketBuffer, ∃ number ∈ s.received, feed.Carries number.toNat slot.buffer
  received : ∀ number ∈ s.received, number.toNat ≤ s.mostRecent ∨
    ∃ slot ∈ s.udpPacketBuffer, feed.Carries number.toNat slot.buffer
  recent : s.mostRecent = 0 ∨ ∃ number ∈ s.received, number.toNat = s.mostRecent
  handler : s.handler.At feed s.udpPacketBuffer s.mostRecent (s.errors ≠ [])
  requests : ∀ request, s.Requested request → request.lastPacket.toNat ≤ s.mostRecent
  client : s.client.At feed (s.errors ≠ [])
  buffer : s.reorderBuffer.Intact fun number item => feed.Item number item ∧ number ≤ s.mostRecent
  position : 1 ≤ s.reorderBuffer.readerIndex ∧ s.reorderBuffer.readerIndex ≤ s.mostRecent + 1 ∧
    s.reorderBuffer.readerIndex < 2 ^ 64 ∧ s.reorderBuffer.readerIndex ≤ feed.events.length + 1
  publisher : s.publisher.At feed s.published (s.reorderBuffer.readerIndex - 1)
  covered : s.errors = [] → ∀ number, 1 ≤ number → number ≤ s.mostRecent → s.Covered feed number

variable {s feed}

theorem init_invariant (memory : Nat → List UInt8) : (init memory).Invariant feed where
  counter := rfl
  cache := by simp [init]
  packets := by simp [init]
  received := by simp [init]
  recent := Or.inl rfl
  handler := show (0 : Nat) + 1 < 2 ^ 64 by norm_num
  requests := by simp [Requested, init, ClientPc.request]
  client := trivial
  buffer := new_intact _ _
  position := show 1 ≤ 1 ∧ 1 ≤ 0 + 1 ∧ 1 < 2 ^ 64 ∧ 1 ≤ feed.events.length + 1 by norm_num
  publisher := rfl
  covered := by
    intro _ number hpos hle
    have hzero : (init memory).mostRecent = 0 := rfl
    omega

/-! ## The exchange, the listener and errors -/

theorem Invariant.exchangeStep (h : s.Invariant feed) :
    ∃ s', s.exchangeStep feed = some s' ∧ s'.Invariant feed := by
  rw [System.exchangeStep]
  cases hevent : feed.events[s.retransmitCache.length]? with
  | none => exact ⟨s, rfl, h⟩
  | some event =>
    obtain ⟨m, hgenerate, hpacket⟩ := Feed.generateMessage_isPacket feed
      (s.retransmitCache.length + 1) (by omega) hevent (feed.memory_length s.retransmitCache.length)
    rw [← h.counter] at hgenerate
    refine ⟨{ s with
      sequencer := ⟨UInt64.ofNat (s.retransmitCache.length + 1 + 1)⟩
      retransmitCache := s.retransmitCache ++ [m] }, by simp only [hgenerate]; rfl, ?_⟩
    refine ⟨?_, ?_, h.packets, h.received, h.recent, h.handler, h.requests, h.client, h.buffer, h.position,
      h.publisher, h.covered⟩
    · simp
    · intro k m' hk
      rw [List.getElem?_append] at hk
      split at hk
      · exact h.cache k m' hk
      · have hk0 := (List.getElem?_eq_some_iff.mp hk).1
        simp only [List.length_singleton] at hk0
        have hlast : k = s.retransmitCache.length := by omega
        subst hlast
        simp only [Nat.sub_self, List.getElem?_cons_zero, Option.some.injEq] at hk
        rwa [← hk]

theorem Invariant.listenerAt (h : s.Invariant feed) (pc : ListenerPc) :
    ({ s with listener := pc } : System).Invariant feed :=
  ⟨h.counter, h.cache, h.packets, h.received, h.recent, h.handler, h.requests, h.client, h.buffer,
    h.position, h.publisher, h.covered⟩

theorem report_ne_nil (error : HandlerError) : (s.report error).errors ≠ [] := by
  simp [System.report]

theorem Invariant.report (h : s.Invariant feed) (error : HandlerError) : (s.report error).Invariant feed := by
  have hfailed := report_ne_nil (s := s) error
  refine ⟨h.counter, h.cache, h.packets, h.received, h.recent, ?_, h.requests, ?_, h.buffer, h.position,
    h.publisher, fun hnone => absurd hnone hfailed⟩
  · have hat := h.handler
    show s.handler.At feed s.udpPacketBuffer s.mostRecent _
    cases hpc : s.handler with
    | waiting | pushing _ | writing | consuming _ =>
      rw [hpc] at hat
      exact hat
    | stopped => exact hfailed
  · have hat := h.client
    show s.client.At feed _
    cases hpc : s.client with
    | waiting | sending _ | receiving _ | writing _ _ =>
      rw [hpc] at hat
      exact hat
    | stopped => exact hfailed

theorem Invariant.stopHandler (h : s.Invariant feed) (herrors : s.errors ≠ []) :
    ({ s with handler := .stopped } : System).Invariant feed :=
  ⟨h.counter, h.cache, h.packets, h.received, h.recent, herrors, h.requests, h.client, h.buffer, h.position,
    h.publisher, fun hnone => absurd hnone herrors⟩

theorem Invariant.stopClient (h : s.Invariant feed) (herrors : s.errors ≠ []) :
    ({ s with client := .stopped } : System).Invariant feed := by
  refine ⟨h.counter, h.cache, h.packets, h.received, h.recent, h.handler, ?_, herrors, h.buffer, h.position,
    h.publisher, fun hnone => absurd hnone herrors⟩
  intro request hrequest
  rcases hrequest with hmem | hclient
  · exact h.requests request (Or.inl hmem)
  · cases hclient

theorem Invariant.listenerStep (h : s.Invariant feed) : s.listenerStep.Invariant feed := by
  rw [System.listenerStep]
  split
  · split
    · exact (h.report _).listenerAt _
    · exact h.listenerAt _
  · exact h
  · exact h

/-- A packet that arrives joins the packet buffer; nobody has looked at it yet. -/
theorem Invariant.arrive (h : s.Invariant feed) (message : Nat) (slot : EncodedMessage) :
    (s.arrive message slot).Invariant feed := by
  rw [System.arrive]
  split
  · split
    · split
      · rename_i m hm
        have hpacket := h.cache message m hm
        have hcarries := hpacket.receiveDatagram slot
        have hnumber : m.header.sequenceNumber.toNat = message + 1 := by
          rw [hpacket.1, hcarries.toNat]
        refine ⟨h.counter, h.cache, ?_, ?_, ?_, h.handler.append _, h.requests, h.client, h.buffer, h.position,
          h.publisher, ?_⟩
        · intro slot' hslot
          rcases List.mem_append.mp hslot with hold | hnew
          · obtain ⟨number, hmem, hcarries'⟩ := h.packets slot' hold
            exact ⟨number, List.mem_append_left _ hmem, hcarries'⟩
          · rw [List.mem_singleton.mp hnew]
            exact ⟨m.header.sequenceNumber, by simp, by rwa [hnumber]⟩
        · intro number hmem
          rcases List.mem_append.mp hmem with hold | hnew
          · refine (h.received number hold).imp_right ?_
            rintro ⟨slot', hslot, hcarries'⟩
            exact ⟨slot', List.mem_append_left _ hslot, hcarries'⟩
          · rw [List.mem_singleton.mp hnew]
            exact Or.inr ⟨_, List.mem_append_right _ (List.mem_singleton_self _), by rwa [hnumber]⟩
        · refine h.recent.imp_right ?_
          rintro ⟨number, hmem, heq⟩
          exact ⟨number, List.mem_append_left _ hmem, heq⟩
        · intro hnone number hpos hle
          exact (h.covered hnone number hpos hle).imp_right (Or.imp_right (Or.imp_right fun hhand =>
            hhand.append _))
      · exact h
    · exact h
  · exact h
  · exact h

/-! ## The handler -/

/-- The most recent number becomes the greater of the two, and everything strictly
between them is asked for. -/
theorem hasGap_cases (g : GapDetector) (header : MessageHeader)
    (hfits : g.mostRecentPacketId.toNat + 1 < 2 ^ 64) :
    (∃ request, g.hasGap header = (some request, ⟨header.sequenceNumber⟩) ∧
      g.mostRecentPacketId.toNat + 1 < header.sequenceNumber.toNat ∧
      request.firstPacket.toNat = g.mostRecentPacketId.toNat + 1 ∧
      request.lastPacket = header.sequenceNumber) ∨
    ∃ g', g.hasGap header = (none, g') ∧
      header.sequenceNumber.toNat ≤ g.mostRecentPacketId.toNat + 1 ∧
      g'.mostRecentPacketId.toNat = max g.mostRecentPacketId.toNat header.sequenceNumber.toNat := by
  have hsucc : (g.mostRecentPacketId + 1).toNat = g.mostRecentPacketId.toNat + 1 := by
    rw [UInt64.toNat_add]
    exact Nat.mod_eq_of_lt hfits
  rw [GapDetector.hasGap]
  by_cases hgap : g.mostRecentPacketId + 1 < header.sequenceNumber
  · left
    refine ⟨_, if_pos hgap, ?_, hsucc, rfl⟩
    rw [← hsucc]
    exact hgap
  · right
    have hle : header.sequenceNumber.toNat ≤ g.mostRecentPacketId.toNat + 1 := by
      rw [← hsucc]
      exact Nat.le_of_not_lt hgap
    by_cases hnext : header.sequenceNumber = g.mostRecentPacketId + 1
    · refine ⟨_, by rw [if_neg hgap, if_pos hnext], hle, ?_⟩
      rw [hnext, hsucc]
      omega
    · refine ⟨_, by rw [if_neg hgap, if_neg hnext], hle, ?_⟩
      have hne : header.sequenceNumber.toNat ≠ g.mostRecentPacketId.toNat + 1 := fun heq =>
        hnext (UInt64.toNat_inj.mp (by rw [heq, hsucc]))
      omega

/-- The handler looks at the next packet: `recent` is the new most recent number and
`pc` where it goes, with everything up to `recent` covered. -/
theorem Invariant.detect (h : s.Invariant feed) (hpc : s.handler = .waiting) {slot : EncodedMessage}
    {slots : List EncodedMessage} (hslots : s.udpPacketBuffer = slot :: slots) {g : GapDetector}
    {number : UInt64} (hmem : number ∈ s.received) (hcarries : feed.Carries number.toNat slot.buffer)
    (hrecent : g.mostRecentPacketId.toNat = max s.mostRecent number.toNat) {pc : HandlerPc}
    (hat : pc.At feed (slot.decodeHeaderFromBuffer :: slots) g.mostRecentPacketId.toNat (s.errors ≠ []))
    (hcovered : ∀ i, s.mostRecent < i → i ≤ number.toNat →
      pc.InHand feed (slot.decodeHeaderFromBuffer :: slots) i) :
    ({ s with
      udpPacketBuffer := slot.decodeHeaderFromBuffer :: slots
      gapDetector := g
      handler := pc } : System).Invariant feed := by
  have hle : s.mostRecent ≤ g.mostRecentPacketId.toNat := by omega
  refine ⟨h.counter, h.cache, ?_, ?_, ?_, hat, ?_, h.client, ?_, ?_, h.publisher, ?_⟩
  · intro slot' hslot
    rcases List.mem_cons.mp hslot with rfl | hslot
    · exact ⟨number, hmem, hcarries⟩
    · exact h.packets slot' (by rw [hslots]; exact List.mem_cons_of_mem _ hslot)
  · intro i hi
    rcases h.received i hi with hold | ⟨slot', hslot, hcarries'⟩
    · exact Or.inl (hold.trans hle)
    · rw [hslots] at hslot
      rcases List.mem_cons.mp hslot with rfl | hslot
      · exact Or.inr ⟨_, List.mem_cons_self, hcarries'⟩
      · exact Or.inr ⟨slot', List.mem_cons_of_mem _ hslot, hcarries'⟩
  · show g.mostRecentPacketId.toNat = 0 ∨ ∃ i ∈ s.received, i.toNat = g.mostRecentPacketId.toNat
    rw [hrecent]
    rcases Nat.le_total number.toNat s.mostRecent with hcase | hcase
    · rw [Nat.max_eq_left hcase]
      exact h.recent
    · rw [Nat.max_eq_right hcase]
      exact Or.inr ⟨number, hmem, rfl⟩
  · intro request hrequest
    exact (h.requests request hrequest).trans hle
  · exact h.buffer.mono fun i item hi => ⟨hi.1, hi.2.trans hle⟩
  · obtain ⟨hpos, hposition, hfits⟩ := h.position
    exact ⟨hpos, hposition.trans (Nat.succ_le_succ hle), hfits⟩
  · intro hnone i hpos hi
    by_cases hold : i ≤ s.mostRecent
    · have := h.covered hnone i hpos hold
      simp only [Covered, hpc, HandlerPc.InHand, or_false] at this
      rcases this with hread | hwritten | hrequest
      · exact Or.inl hread
      · exact Or.inr (Or.inl hwritten)
      · exact Or.inr (Or.inr (Or.inl hrequest))
    · have hi : i ≤ g.mostRecentPacketId.toNat := hi
      exact Or.inr (Or.inr (Or.inr (hcovered i (by omega) (by omega))))

/-- Writing a packet up to the most recent one keeps everything else as it is. -/
theorem Invariant.write (h : s.Invariant feed) {number : UInt64} {item : List UInt8}
    (hitem : feed.Item number.toNat item) (hle : number.toNat ≤ s.mostRecent) :
    ∃ result b, writeMarketDataToReorderBuffer s.reorderBuffer item number = some (result, b) ∧
      ({ s with reorderBuffer := b } : System).Invariant feed ∧
      (result = .ok () → number.toNat < b.readerIndex ∨ b.Written number.toNat) := by
  have hlen := hitem.bounds.2.2
  rcases hwrite : s.reorderBuffer.tryWriteTo item number.toNat with ⟨status, b⟩
  obtain ⟨hbuffer, hreader, hkeep, hstatus⟩ := h.buffer.tryWriteTo ⟨hitem, hle⟩ hwrite
  have hinvariant : ({ s with reorderBuffer := b } : System).Invariant feed := by
    refine ⟨h.counter, h.cache, h.packets, h.received, h.recent, h.handler, h.requests, h.client, hbuffer,
      ?_, ?_, ?_⟩
    · show 1 ≤ b.readerIndex ∧ b.readerIndex ≤ s.mostRecent + 1 ∧ b.readerIndex < 2 ^ 64 ∧
        b.readerIndex ≤ feed.events.length + 1
      rw [hreader]
      exact h.position
    · show s.publisher.At feed s.published (b.readerIndex - 1)
      rw [hreader]
      exact h.publisher
    · intro hnone i hpos hi
      rcases h.covered hnone i hpos hi with hread | hwritten | hrest
      · exact Or.inl (by simpa only [hreader] using hread)
      · exact Or.inr (Or.inl (hkeep i hwritten))
      · exact Or.inr (Or.inr hrest)
  rw [writeMarketDataToReorderBuffer, if_pos (by rw [hlen]), List.take_of_length_le (by rw [hlen]), hwrite]
  cases status with
  | likelySlowReader => exact ⟨_, b, rfl, hinvariant, fun h => by cases h⟩
  | likelySlowWriter => exact ⟨_, b, rfl, hinvariant, fun h => by cases h⟩
  | success => exact ⟨_, b, rfl, hinvariant, fun _ => by simpa using hstatus⟩
  | alreadyWritten => exact ⟨_, b, rfl, hinvariant, fun _ => by simpa using hstatus⟩

/-- A packet in hand is the one in the packet buffer. -/
theorem AtTail.eq_of_isPacket {packet : EncodedMessage} {slots : List EncodedMessage} {i j : Nat}
    (htail : feed.AtTail (packet :: slots) i) (hpacket : feed.IsPacket j packet) : i = j := by
  obtain ⟨packet', slots', heq, hpacket'⟩ := htail
  cases heq
  exact hpacket'.2.unique hpacket.2

theorem Invariant.handler_push (h : s.Invariant feed) {request : RetransmitRequest}
    (hpc : s.handler = .pushing request) :
    ({ s with
      retransmitRequestBuffer := s.retransmitRequestBuffer ++ [request]
      handler := .writing } : System).Invariant feed := by
  have hat := h.handler
  rw [hpc] at hat
  obtain ⟨hlast, htail⟩ := hat
  refine ⟨h.counter, h.cache, h.packets, h.received, h.recent, ⟨s.mostRecent, htail, le_refl _, Or.inl rfl⟩,
    ?_, h.client, h.buffer, h.position, h.publisher, ?_⟩
  · intro r hr
    rcases hr with hmem | hclient
    · rcases List.mem_append.mp hmem with hold | hnew
      · exact h.requests r (Or.inl hold)
      · rw [List.mem_singleton.mp hnew]
        exact le_of_eq hlast
    · exact h.requests r (Or.inr hclient)
  · intro hnone i hpos hi
    have hcovered := h.covered hnone i hpos hi
    simp only [Covered, hpc, HandlerPc.InHand] at hcovered
    rcases hcovered with hread | hwritten | ⟨r, hr, hasks⟩ | hasks | htail
    · exact Or.inl hread
    · exact Or.inr (Or.inl hwritten)
    · exact Or.inr (Or.inr (Or.inl ⟨r, hr.imp_left (List.mem_append_left _), hasks⟩))
    · exact Or.inr (Or.inr (Or.inl ⟨request, Or.inl (by simp), hasks⟩))
    · exact Or.inr (Or.inr (Or.inr htail))

theorem Invariant.handler_write (h : s.Invariant feed) (hpc : s.handler = .writing) :
    ∃ s', s.handlerStep = some s' ∧ s'.Invariant feed := by
  have hat := h.handler
  rw [hpc] at hat
  obtain ⟨number, ⟨packet, slots, hslots, hpacket⟩, hle, hrecent⟩ := hat
  obtain ⟨item, hitem, hpayload⟩ := hpacket.payload
  have hnumber : packet.header.sequenceNumber.toNat = number := by rw [hpacket.1, hpacket.2.toNat]
  obtain ⟨result, b, hwrite, hw, hok⟩ := h.write (by rwa [hnumber]) (by rwa [hnumber])
  rw [hnumber] at hok
  refine ⟨{ s with reorderBuffer := b, handler := .consuming result }, ?_, ?_⟩
  · simp [handlerStep, hpc, hslots, hpayload, hwrite]
  have hfits := hw.position.2.2.1
  refine ⟨hw.counter, hw.cache, hw.packets, hw.received, hw.recent, ?_, hw.requests, hw.client, hw.buffer,
    hw.position, hw.publisher, ?_⟩
  · refine ⟨number, ⟨packet, slots, hslots, hpacket⟩, hle, fun hresult => ?_⟩
    show s.mostRecent + 1 < 2 ^ 64
    rcases hrecent with rfl | hrecent
    · have hb : b.readerIndex < 2 ^ 64 := hfits
      rcases hok hresult with hread | hwritten
      · omega
      · exact hwritten.1.fits
    · exact hrecent
  · intro hnone i hpos hi
    have hcovered := hw.covered hnone i hpos hi
    simp only [Covered, hpc, HandlerPc.InHand] at hcovered
    rcases hcovered with hread | hwritten | hrequest | htail
    · exact Or.inl hread
    · exact Or.inr (Or.inl hwritten)
    · exact Or.inr (Or.inr (Or.inl hrequest))
    · cases result with
      | error error => exact Or.inr (Or.inr (Or.inr htail))
      | ok _ =>
        rw [hslots] at htail
        obtain rfl := AtTail.eq_of_isPacket htail hpacket
        rcases hok rfl with hread | hwritten
        · exact Or.inl hread
        · exact Or.inr (Or.inl hwritten)

/-- `consume`, after which the packet is behind the handler. -/
theorem Invariant.handler_consume (h : s.Invariant feed) {result : Except HandlerError Unit}
    (hpc : s.handler = .consuming result) :
    ∃ s', s.handlerStep = some s' ∧ s'.Invariant feed := by
  have hat := h.handler
  rw [hpc] at hat
  obtain ⟨number, ⟨packet, slots, hslots, hpacket⟩, hle, hrecent⟩ := hat
  have hpackets : ∀ slot ∈ slots, ∃ number ∈ s.received, feed.Carries number.toNat slot.buffer := by
    intro slot hslot
    exact h.packets slot (by rw [hslots]; exact List.mem_cons_of_mem _ hslot)
  have hreceived : ∀ i ∈ s.received, i.toNat ≤ s.mostRecent ∨
      ∃ slot ∈ slots, feed.Carries i.toNat slot.buffer := by
    intro i hi
    rcases h.received i hi with hold | ⟨slot, hslot, hcarries⟩
    · exact Or.inl hold
    · rw [hslots] at hslot
      rcases List.mem_cons.mp hslot with rfl | hslot
      · rw [hcarries.unique hpacket.2]
        exact Or.inl hle
      · exact Or.inr ⟨slot, hslot, hcarries⟩
  cases result with
  | error error =>
    refine ⟨{ (({ s with udpPacketBuffer := slots } : System).report error) with handler := .stopped }, ?_, ?_⟩
    · simp only [handlerStep, hpc, hslots, List.tail_cons]
    · have hr := (h.report error).stopHandler (report_ne_nil error)
      exact ⟨hr.counter, hr.cache, hpackets, hreceived, hr.recent, hr.handler, hr.requests, hr.client,
        hr.buffer, hr.position, hr.publisher, fun hnone => absurd hnone (report_ne_nil error)⟩
  | ok _ =>
    refine ⟨{ s with udpPacketBuffer := slots, handler := .waiting }, ?_, ?_⟩
    · simp only [handlerStep, hpc, hslots, List.tail_cons]
    · refine ⟨h.counter, h.cache, hpackets, hreceived, h.recent, hrecent rfl, h.requests, h.client, h.buffer,
        h.position, h.publisher, ?_⟩
      intro hnone i hpos hi
      have hcovered := h.covered hnone i hpos hi
      rw [Covered, hpc] at hcovered
      exact hcovered

theorem Invariant.handlerStep (h : s.Invariant feed) :
    ∃ s', s.handlerStep = some s' ∧ s'.Invariant feed := by
  cases hpc : s.handler with
  | waiting =>
    cases hslots : s.udpPacketBuffer with
    | nil => exact ⟨s, by simp [System.handlerStep, hpc, hslots], h⟩
    | cons slot slots =>
      obtain ⟨number, hmem, hcarries⟩ := h.packets slot (by rw [hslots]; exact List.mem_cons_self)
      have hpacket := hcarries.decode slot
      have hnumber : slot.decodeHeaderFromBuffer.header.sequenceNumber.toNat = number.toNat := by
        rw [hpacket.1, hcarries.toNat]
      have htail : feed.AtTail (slot.decodeHeaderFromBuffer :: slots) number.toNat :=
        ⟨_, slots, rfl, hpacket⟩
      have hfits := h.handler
      rw [hpc] at hfits
      rcases hasGap_cases s.gapDetector slot.decodeHeaderFromBuffer.header hfits with
        ⟨request, hgap, hlt, hfirst, hlast⟩ | ⟨g, hgap, hle, hrecent⟩
      · rw [hnumber] at hlt
        refine ⟨_, by simp only [System.handlerStep, hpc, hslots, hgap]; rfl, ?_⟩
        refine h.detect hpc hslots hmem hcarries ?_ ?_ ?_
        · rw [hnumber, mostRecent]
          omega
        · refine ⟨by rw [hlast], ?_⟩
          rw [hnumber]
          exact htail
        · intro i hlow hhigh
          rcases Nat.lt_or_eq_of_le hhigh with hhigh | rfl
          · refine Or.inl ⟨?_, by rw [hlast, hnumber]; exact hhigh⟩
            rw [hfirst]
            exact hlow
          · exact Or.inr htail
      · rw [hnumber] at hle hrecent
        refine ⟨_, by simp only [System.handlerStep, hpc, hslots, hgap]; rfl, ?_⟩
        refine h.detect hpc hslots hmem hcarries hrecent ?_ ?_
        · refine ⟨number.toNat, htail, by omega, ?_⟩
          have hfits : s.mostRecent + 1 < 2 ^ 64 := hfits
          rw [mostRecent] at hfits
          omega
        · intro i hlow hhigh
          rw [mostRecent] at hlow
          obtain rfl : i = number.toNat := by omega
          exact htail
  | pushing request =>
    rw [System.handlerStep, hpc]
    by_cases hfull : s.retransmitRequestBuffer.length = retransmitBufferSize
    · simp only [if_pos hfull]
      exact ⟨_, rfl, (h.report _).stopHandler (report_ne_nil _)⟩
    · simp only [if_neg hfull]
      exact ⟨_, rfl, h.handler_push hpc⟩
  | writing => exact h.handler_write hpc
  | consuming result => exact h.handler_consume hpc
  | stopped => exact ⟨s, by simp [System.handlerStep, hpc], h⟩

/-! ## The client -/

/-- The client goes from `request` to `pc`, having dealt with what it no longer asks for. -/
theorem Invariant.clientAt (h : s.Invariant feed) (request : RetransmitRequest) {pc : ClientPc}
    (hpc : s.client.request = some request) (hat : pc.At feed (s.errors ≠ []))
    (hlast : ∀ r, pc.request = some r → r.lastPacket = request.lastPacket)
    (hdone : ∀ i, request.Asks i → i < s.reorderBuffer.readerIndex ∨ s.reorderBuffer.Written i ∨
      ∃ r, pc.request = some r ∧ r.Asks i) :
    ({ s with client := pc } : System).Invariant feed := by
  refine ⟨h.counter, h.cache, h.packets, h.received, h.recent, h.handler, ?_, hat, h.buffer, h.position,
    h.publisher, ?_⟩
  · intro r hr
    rcases hr with hmem | hclient
    · exact h.requests r (Or.inl hmem)
    · rw [hlast r hclient]
      exact h.requests request (Or.inr hpc)
  · intro hnone i hpos hi
    rcases h.covered hnone i hpos hi with hread | hwritten | ⟨r, hr, hasks⟩ | hhand
    · exact Or.inl hread
    · exact Or.inr (Or.inl hwritten)
    · rcases hr with hmem | hclient
      · exact Or.inr (Or.inr (Or.inl ⟨r, Or.inl hmem, hasks⟩))
      · rw [hpc] at hclient
        cases hclient
        rcases hdone i hasks with hread | hwritten | ⟨r, hr, hasks⟩
        · exact Or.inl hread
        · exact Or.inr (Or.inl hwritten)
        · exact Or.inr (Or.inr (Or.inl ⟨r, Or.inr hr, hasks⟩))
    · exact Or.inr (Or.inr (Or.inr hhand))

theorem nextPacket_at (request : RetransmitRequest) (failed : Prop) :
    (nextPacket request).At feed failed := by
  rw [nextPacket]
  split
  · assumption
  · trivial

theorem nextPacket_request {request r : RetransmitRequest} (h : (nextPacket request).request = some r) :
    r = request := by
  rw [nextPacket] at h
  split at h
  · exact (Option.some.inj h).symm
  · cases h

/-- A request that asks for anything goes on. -/
theorem nextPacket_asks {request : RetransmitRequest} {i : Nat} (h : request.Asks i) :
    (nextPacket request).request = some request := by
  have hlt : request.firstPacket < request.lastPacket := lt_of_le_of_lt h.1 h.2
  rw [nextPacket, if_pos hlt]
  rfl

theorem Invariant.client_pop (h : s.Invariant feed) (hpc : s.client = .waiting) {request : RetransmitRequest}
    {requests : List RetransmitRequest} (hrequests : s.retransmitRequestBuffer = request :: requests) :
    ({ s with retransmitRequestBuffer := requests, client := .sending request } : System).Invariant feed := by
  have hiff : ∀ r, ({ s with retransmitRequestBuffer := requests, client := .sending request } :
      System).Requested r ↔ s.Requested r := by
    intro r
    simp only [Requested, hpc, hrequests, ClientPc.request, List.mem_cons, Option.some.injEq, reduceCtorEq,
      or_false]
    constructor
    · rintro (hmem | rfl)
      · exact Or.inr hmem
      · exact Or.inl rfl
    · rintro (rfl | hmem)
      · exact Or.inr rfl
      · exact Or.inl hmem
  refine ⟨h.counter, h.cache, h.packets, h.received, h.recent, h.handler, ?_, trivial, h.buffer, h.position,
    h.publisher, ?_⟩
  · intro r hr
    exact h.requests r ((hiff r).mp hr)
  · intro hnone i hpos hi
    rcases h.covered hnone i hpos hi with hread | hwritten | ⟨r, hr, hasks⟩ | hhand
    · exact Or.inl hread
    · exact Or.inr (Or.inl hwritten)
    · exact Or.inr (Or.inr (Or.inl ⟨r, (hiff r).mpr hr, hasks⟩))
    · exact Or.inr (Or.inr (Or.inr hhand))

/-- The next packet of the request comes out of the cache. -/
theorem Invariant.client_receive (h : s.Invariant feed) {request : RetransmitRequest}
    (hpc : s.client = .receiving request) (memory : EncodedMessage) :
    ∃ s', s.clientStep memory = some s' ∧ s'.Invariant feed := by
  have hat := h.client
  rw [hpc] at hat
  have hlt : request.firstPacket < request.lastPacket := hat
  cases hcached : s.cached request.firstPacket with
  | none =>
    refine ⟨_, by simp only [clientStep, hpc, hcached]; rfl, ?_⟩
    exact (h.report _).stopClient (report_ne_nil _)
  | some message =>
    have hpacket : feed.IsPacket request.firstPacket.toNat message := by
      rw [cached] at hcached
      split at hcached
      · cases hcached
      · rename_i hne
        have := h.cache _ _ hcached
        have hpos : request.firstPacket.toNat ≠ 0 := fun h0 => hne (UInt64.toNat_inj.mp h0)
        rwa [Nat.sub_add_cancel (by omega)] at this
    obtain ⟨newMessage, hreceive, hnew⟩ := hpacket.receiveStream memory
    refine ⟨_, by simp only [clientStep, hpc, hcached, hreceive]; rfl, ?_⟩
    have hnumber : newMessage.header.sequenceNumber.toNat = request.firstPacket.toNat := by
      rw [hnew.1, hnew.2.toNat]
    have hc := h.clientAt request (by rw [hpc]; rfl)
      (show (ClientPc.writing request newMessage).At feed (s.errors ≠ []) from ⟨hlt, hnew⟩)
      (fun r hr => by cases hr; rfl) (fun i hi => Or.inr (Or.inr ⟨request, rfl, hi⟩))
    refine ⟨hc.counter, hc.cache, ?_, ?_, ?_, hc.handler, hc.requests, hc.client, hc.buffer, hc.position,
      hc.publisher, hc.covered⟩
    · intro slot hslot
      obtain ⟨number, hmem, hcarries⟩ := h.packets slot hslot
      exact ⟨number, List.mem_append_left _ hmem, hcarries⟩
    · intro number hmem
      rcases List.mem_append.mp hmem with hold | hnew
      · exact h.received number hold
      · rw [List.mem_singleton.mp hnew, hnumber]
        have hlast := h.requests request (Or.inr (by rw [hpc]; rfl))
        have hlt : request.firstPacket.toNat < request.lastPacket.toNat := hlt
        exact Or.inl (show _ ≤ s.mostRecent by omega)
    · refine h.recent.imp_right ?_
      rintro ⟨number, hmem, heq⟩
      exact ⟨number, List.mem_append_left _ hmem, heq⟩

theorem Invariant.client_write (h : s.Invariant feed) {request : RetransmitRequest}
    {newMessage : EncodedMessage} (hpc : s.client = .writing request newMessage) (memory : EncodedMessage) :
    ∃ s', s.clientStep memory = some s' ∧ s'.Invariant feed := by
  have hat := h.client
  rw [hpc] at hat
  obtain ⟨hlt, hpacket⟩ := hat
  have hlt : request.firstPacket.toNat < request.lastPacket.toNat := hlt
  obtain ⟨item, hitem, hpayload⟩ := hpacket.payload
  have hnumber : newMessage.header.sequenceNumber = request.firstPacket :=
    UInt64.toNat_inj.mp (by rw [hpacket.1, hpacket.2.toNat])
  have hlast := h.requests request (Or.inr (by rw [hpc]; rfl))
  have hnext : (request.firstPacket + 1).toNat = request.firstPacket.toNat + 1 := by
    rw [UInt64.toNat_add]
    exact Nat.mod_eq_of_lt (by have := request.lastPacket.toNat_lt; simp only [UInt64.toNat_one]; omega)
  obtain ⟨result, b, hwrite, hw, hok⟩ := h.write hitem (by omega)
  have hlen := hitem.bounds.2.2
  cases result with
  | error error =>
    refine ⟨_, by simp only [clientStep, hpc, hpayload, hnumber, hlen, hwrite, and_self, if_true,
      Option.bind_eq_bind, Option.bind_some]; rfl, ?_⟩
    exact (hw.report error).stopClient (report_ne_nil error)
  | ok _ =>
    refine ⟨_, by simp only [clientStep, hpc, hpayload, hnumber, hlen, hwrite, and_self, if_true,
      Option.bind_eq_bind, Option.bind_some]; rfl, ?_⟩
    refine hw.clientAt request (by simp only [hpc]; rfl) (nextPacket_at _ _) ?_ ?_
    · intro r hr
      rw [nextPacket_request hr]
    · intro i hi
      rcases Nat.eq_or_lt_of_le hi.1 with rfl | hmore
      · rcases hok rfl with hread | hwritten
        · exact Or.inl hread
        · exact Or.inr (Or.inl hwritten)
      · have hasks : ({ request with firstPacket := request.firstPacket + 1 } :
            RetransmitRequest).Asks i := ⟨by rw [hnext]; exact hmore, hi.2⟩
        exact Or.inr (Or.inr ⟨_, nextPacket_asks hasks, hasks⟩)

theorem Invariant.clientStep (h : s.Invariant feed) (memory : EncodedMessage) :
    ∃ s', s.clientStep memory = some s' ∧ s'.Invariant feed := by
  cases hpc : s.client with
  | waiting =>
    cases hrequests : s.retransmitRequestBuffer with
    | nil => exact ⟨s, by simp only [System.clientStep, hpc, hrequests], h⟩
    | cons request requests =>
      exact ⟨_, by simp only [System.clientStep, hpc, hrequests], h.client_pop hpc hrequests⟩
  | sending request =>
    refine ⟨_, by simp only [System.clientStep, hpc]; rfl, ?_⟩
    refine h.clientAt request (by rw [hpc]; rfl) (nextPacket_at _ _) ?_ ?_
    · intro r hr
      rw [nextPacket_request hr]
    · intro i hi
      exact Or.inr (Or.inr ⟨request, nextPacket_asks hi, hi⟩)
  | receiving request => exact h.client_receive hpc memory
  | writing request newMessage => exact h.client_write hpc memory
  | stopped => exact ⟨s, by simp only [System.clientStep, hpc], h⟩

theorem Invariant.clientError (h : s.Invariant feed) (error : HandlerError) :
    (s.clientError error).Invariant feed := by
  rw [System.clientError]
  split
  · exact (h.report error).stopClient (report_ne_nil error)
  · exact (h.report error).stopClient (report_ne_nil error)
  · exact h
  · exact h
  · exact h

/-! ## The publisher -/

theorem Invariant.publisherStep (h : s.Invariant feed) :
    ∃ s', s.publisherStep = some s' ∧ s'.Invariant feed := by
  have hat := h.publisher
  cases hpc : s.publisher with
  | waiting =>
    rw [hpc] at hat
    have hpublished : s.published = feed.events.take (s.reorderBuffer.readerIndex - 1) := hat
    rcases hconsume : s.reorderBuffer.tryConsumeNext with ⟨item, b⟩
    rcases h.buffer.tryConsumeNext hconsume with
      ⟨rfl, rfl, -⟩ | ⟨item, rfl, ⟨hitem, hle⟩, hbuffer, hreader, hfits, hkeep⟩
    · exact ⟨s, by simp only [System.publisherStep, hpc, hconsume], h⟩
    · refine ⟨_, by simp only [System.publisherStep, hpc, hconsume]; rfl, ?_⟩
      obtain ⟨event, hpos, hevent, rfl⟩ := hitem
      refine ⟨h.counter, h.cache, h.packets, h.received, h.recent, h.handler, h.requests, h.client, hbuffer,
        ?_, ?_, ?_⟩
      · show 1 ≤ b.readerIndex ∧ b.readerIndex ≤ s.mostRecent + 1 ∧ b.readerIndex < 2 ^ 64 ∧
          b.readerIndex ≤ feed.events.length + 1
        have hposition := h.position
        have hlength := (List.getElem?_eq_some_iff.mp hevent).1
        omega
      · refine ⟨event, rfl, ?_⟩
        show s.published ++ [event] = feed.events.take (b.readerIndex - 1)
        have hindex : b.readerIndex - 1 = (s.reorderBuffer.readerIndex - 1) + 1 := by omega
        rw [hindex, List.take_add_one, hevent, hpublished]
        rfl
      · intro hnone i hipos hi
        rcases h.covered hnone i hipos hi with hread | hwritten | hrest
        · exact Or.inl (show i < b.readerIndex by omega)
        · by_cases heq : i = s.reorderBuffer.readerIndex
          · exact Or.inl (show i < b.readerIndex by omega)
          · exact Or.inr (Or.inl (hkeep i heq hwritten))
        · exact Or.inr (Or.inr hrest)
  | publishing item =>
    rw [hpc] at hat
    obtain ⟨event, rfl, hpublished⟩ := hat
    refine ⟨_, by simp only [System.publisherStep, hpc, BinaryProtocol.decode_encode]; rfl, ?_⟩
    exact ⟨h.counter, h.cache, h.packets, h.received, h.recent, h.handler, h.requests, h.client, h.buffer,
      h.position, hpublished, h.covered⟩

/-! ## Runs -/

theorem Invariant.step (h : s.Invariant feed) (pick : Pick) :
    ∃ s', s.step feed pick = some s' ∧ s'.Invariant feed := by
  cases pick with
  | sequence => exact h.exchangeStep
  | broadcast =>
    exact ⟨_, rfl, h.counter, h.cache, h.packets, h.received, h.recent, h.handler, h.requests, h.client,
      h.buffer, h.position, h.publisher, h.covered⟩
  | listener => exact ⟨_, rfl, h.listenerStep⟩
  | arrive message slot => exact ⟨_, rfl, h.arrive message slot⟩
  | listenerError =>
    rw [System.step]
    split
    · exact ⟨_, rfl, (h.report _).listenerAt _⟩
    · exact ⟨s, rfl, h⟩
    · exact ⟨s, rfl, h⟩
  | handler => exact h.handlerStep
  | client memory => exact h.clientStep memory
  | clientError error => exact ⟨_, rfl, h.clientError error⟩
  | publisher => exact h.publisherStep

theorem Invariant.run (h : s.Invariant feed) (picks : List Pick) :
    ∃ s', s.run feed picks = some s' ∧ s'.Invariant feed := by
  induction picks generalizing s with
  | nil => exact ⟨s, rfl, h⟩
  | cons pick picks ih =>
    obtain ⟨s₁, hstep, h₁⟩ := h.step pick
    obtain ⟨s', hrun, h'⟩ := ih h₁
    exact ⟨s', by rw [System.run, List.foldlM_cons, hstep]; exact hrun, h'⟩

theorem Invariant.published_take (h : s.Invariant feed) : ∃ n, s.published = feed.events.take n := by
  have hat := h.publisher
  cases hpc : s.publisher with
  | waiting =>
    rw [hpc] at hat
    exact ⟨_, hat⟩
  | publishing item =>
    rw [hpc] at hat
    obtain ⟨event, -, hpublished⟩ := hat
    refine ⟨s.published.length, ?_⟩
    have hlen : s.published.length ≤ s.reorderBuffer.readerIndex - 1 := by
      have := congrArg List.length hpublished
      rw [List.length_append, List.length_take] at this
      simp only [List.length_singleton] at this
      omega
    calc s.published = (s.published ++ [event]).take s.published.length := by simp
      _ = (feed.events.take (s.reorderBuffer.readerIndex - 1)).take s.published.length := by rw [hpublished]
      _ = feed.events.take s.published.length := by rw [List.take_take, Nat.min_eq_left hlen]

theorem foldr_max_le {numbers : List Nat} {n : Nat} (hle : ∀ i ∈ numbers, i ≤ n) :
    numbers.foldr max 0 ≤ n := by
  induction numbers with
  | nil => exact Nat.zero_le n
  | cons i numbers ih =>
    exact max_le (hle i List.mem_cons_self) (ih fun j hj => hle j (List.mem_cons_of_mem _ hj))

theorem le_foldr_max {numbers : List Nat} {n : Nat} (hmem : n ∈ numbers) : n ≤ numbers.foldr max 0 := by
  induction numbers with
  | nil => cases hmem
  | cons i numbers ih =>
    rcases List.mem_cons.mp hmem with rfl | hmem
    · exact le_max_left _ _
    · exact (ih hmem).trans (le_max_right _ _)

/-- When the handler has looked at every packet, the most recent number is the
highest received. -/
theorem Invariant.highestReceived (h : s.Invariant feed) (hempty : s.udpPacketBuffer = []) :
    s.highestReceived = s.mostRecent := by
  refine le_antisymm (foldr_max_le ?_) ?_
  · intro i hi
    obtain ⟨number, hmem, rfl⟩ := List.mem_map.mp hi
    rcases h.received number hmem with hle | ⟨slot, hslot, -⟩
    · exact hle
    · rw [hempty] at hslot
      cases hslot
  · rcases h.recent with hzero | ⟨number, hmem, heq⟩
    · rw [hzero]
      exact Nat.zero_le _
    · exact le_foldr_max (List.mem_map.mpr ⟨number, hmem, heq⟩)

/-- Nothing on its way, nothing to consume and no error: the reader is behind the
most recent number. -/
theorem Invariant.caught_up (h : s.Invariant feed) (herrors : s.errors = []) (hquiet : s.Quiet) :
    s.reorderBuffer.readerIndex = s.mostRecent + 1 := by
  obtain ⟨hpackets, hrequests, hclient, -, hconsume⟩ := hquiet
  obtain ⟨hpos, hle, -, -⟩ := h.position
  by_contra hne
  have hnotWritten : ¬ s.reorderBuffer.Written s.reorderBuffer.readerIndex := by
    rcases heq : s.reorderBuffer.tryConsumeNext with ⟨item, b⟩
    rw [heq] at hconsume
    rcases h.buffer.tryConsumeNext heq with ⟨-, -, hnot⟩ | ⟨data, hsome, -⟩
    · exact hnot
    · rw [hsome] at hconsume
      cases hconsume
  rcases h.covered herrors s.reorderBuffer.readerIndex hpos (by omega) with
    hread | hwritten | ⟨request, hrequest, -⟩ | hhand
  · exact absurd hread (lt_irrefl _)
  · exact hnotWritten hwritten
  · simp [Requested, hrequests, hclient, ClientPc.request] at hrequest
  · have hat := h.handler
    rw [hpackets] at hhand hat
    cases hpc : s.handler with
    | pushing request =>
      rw [hpc] at hat
      obtain ⟨-, packet, slots, hnil, -⟩ := hat
      cases hnil
    | writing =>
      rw [hpc] at hat
      obtain ⟨_, ⟨packet, slots, hnil, -⟩, -⟩ := hat
      cases hnil
    | consuming result =>
      rw [hpc] at hat
      obtain ⟨_, ⟨packet, slots, hnil, -⟩, -⟩ := hat
      cases hnil
    | waiting =>
      rw [hpc] at hhand
      exact hhand
    | stopped =>
      rw [hpc] at hhand
      exact hhand

/-- However the threads interleave and whatever UDP does with the broadcast packets: no
assertion fails, the published events are a prefix of the feed's, and when no error
is reported and nothing is pending they are as many as the highest number received. -/
theorem delivers_in_order (feed : Feed) (memory : Nat → List UInt8) (picks : List Pick) :
    ∃ s, (init memory).run feed picks = some s ∧ s.published <+: feed.events ∧
      (s.errors = [] → s.Quiet → s.published.length = s.highestReceived) := by
  obtain ⟨s, hrun, h⟩ := Invariant.run (init_invariant memory) picks
  obtain ⟨n, hn⟩ := h.published_take
  refine ⟨s, hrun, by rw [hn]; exact List.take_prefix n _, ?_⟩
  intro herrors hquiet
  have hreader := h.caught_up herrors hquiet
  have hpublished := h.publisher
  rw [hquiet.2.2.2.1] at hpublished
  rw [h.highestReceived hquiet.1, show s.published = _ from hpublished, hreader, Nat.add_sub_cancel,
    List.length_take]
  have hposition := h.position
  omega

end System

/-- A bid and an offer come to rest. -/
def twoOrders : Feed where
  events := [⟨⟨1, 100, 10, .buy⟩, .add⟩, ⟨⟨2, 120, 5, .sell⟩, .add⟩]
  memory := fun _ => List.replicate EncodedMessage.maxWireSize 0
  memory_length := fun _ => List.length_replicate
  fits := by decide

def blankMessage : EncodedMessage := ⟨⟨0, 0⟩, List.replicate EncodedMessage.maxWireSize 0⟩

end HftPipeline
