import HftPipeline.MarketDataHandler
import HftPipeline.RingBuffers
import HftPipeline.Lib.BufferSpan

/-!
# The bytes of a received packet

The real-time listener reads a datagram into a slot of the packet buffer and does not keep its
length. What it does not cover is left over from the packet before. The handler then reads the
header, takes the payload by the length in the header, and of that an event, whatever is there.

The packet buffer holds the bytes of its slots only. A header is decoded anew for each packet.
-/
namespace HftPipeline

open BufferSpan NetworkOrder

/-- The `Makefile` builds with assertions, and for a release with `NDEBUG` without them. -/
inductive Build where
  | debug | release
  deriving DecidableEq, Repr

/-- What one `recv` can return. -/
abbrev Datagram := { wire : List UInt8 // wire.length ≤ EncodedMessage.maxWireSize }

namespace EncodedMessage

def wholeBuffer : Span := .whole maxWireSize

/-- What `decode_header_from_buffer` copies. -/
def headerSpans : List Span := [wholeBuffer.subspan 0 8, wholeBuffer.subspan 8 2]

/-- The payload by the length in the header. -/
def payloadPart (header : MessageHeader) : Span :=
  wholeBuffer.subspan MessageHeader.packedWireSize header.payloadLength.toNat

/-- `get_payload_ref`. -/
def payloadSpan (build : Build) (header : MessageHeader) : Option Span :=
  if build = .debug ∧ maxMessageBytes < header.payloadLength.toNat then none
  else some (payloadPart header)

theorem length_receiveDatagram {slot : EncodedMessage} (hslot : slot.buffer.length = maxWireSize) (wire : List UInt8) :
    (slot.receiveDatagram wire).buffer.length = maxWireSize := by
  simp only [receiveDatagram, overwrite, List.take_zero, List.nil_append, List.length_append, List.length_take,
    List.length_drop, hslot]
  omega

end EncodedMessage

/-- `recv` into a slot. -/
def MessageMemory.receive (slot : MessageMemory) (wire : Datagram) : MessageMemory :=
  ⟨(EncodedMessage.receiveDatagram ⟨⟨0, 0⟩, slot.val⟩ wire.val).buffer,
    EncodedMessage.length_receiveDatagram slot.property wire.val⟩

/-- The event of `write_market_data_to_reorder_buffer`, as an unchecked `subspan` takes it. -/
def eventSpan (event : Span) : Span := event.subspan 0 BinaryProtocol.bufferSize

/-- What a round of the handler writes: the header and the payload, the spans that these
are read from, and all the spans that are taken on the way from `recv` on. -/
structure PayloadWrite where
  header : MessageHeader
  payload : List UInt8
  used : List Span
  taken : List Span
  deriving DecidableEq, Repr

open EncodedMessage in
def EncodedMessage.payloadWrite (newPacket : EncodedMessage) (payload : Span) : PayloadWrite where
  header := newPacket.header
  payload := (eventSpan payload).items newPacket.buffer
  used := headerSpans ++ [eventSpan payload]
  taken := [wholeBuffer] ++ headerSpans ++ [payload, eventSpan payload]

/-- The write to the reorder buffer and whether it was made. A failed assertion is `none`. -/
def writePayload (build : Build) (b : MarketReorderBuffer) (newPacket : EncodedMessage) :
    Option (Option PayloadWrite × MarketReorderBuffer) := do
  let payload ← EncodedMessage.payloadSpan build newPacket.header
  let write := newPacket.payloadWrite payload
  let result := b.tryWriteTo write.payload newPacket.header.sequenceNumber.toNat
  return (if result.1 = .success then some write else none, result.2)

/-- What `MarketDataHandler::run` works on besides the packets. -/
structure HandlerState where
  gapDetector : GapDetector
  retransmitRequestBuffer : List RetransmitRequest
  reorderBuffer : MarketReorderBuffer

namespace HandlerState

def init (memory : Nat → List UInt8) : HandlerState :=
  ⟨GapDetector.init, [], ReorderBuffer.new memory firstSequenceId⟩

/-- The header in the bytes of a packet. -/
def decode (packet : List UInt8) : EncodedMessage := EncodedMessage.decodeHeaderFromBuffer ⟨⟨0, 0⟩, packet⟩

/-- A round of `MarketDataHandler::run`. Without room for its request the thread stops. -/
def handle (build : Build) (h : HandlerState) (packet : MessageMemory) : Option (Option PayloadWrite × HandlerState) :=
  let newPacket := decode packet.val
  let (request, gapDetector) := h.gapDetector.hasGap newPacket.header
  if request.isSome ∧ h.retransmitRequestBuffer.length = retransmitBufferSize then
    some (none, { h with gapDetector := gapDetector })
  else do
    let (write, reorderBuffer) ← writePayload build h.reorderBuffer newPacket
    return (write, ⟨gapDetector, h.retransmitRequestBuffer ++ request.toList, reorderBuffer⟩)

end HandlerState

/-! ## The packet buffer and its two threads -/

/-- `received` are the datagrams in the order of `recv`, `written` what the handler writes
and the index of the packet it has then. -/
structure PacketMachine where
  udpPacketBuffer : LazyRingMachine MessageMemory 15
  handler : HandlerState
  received : List Datagram
  written : List (Nat × PayloadWrite)

/-- A step of the listener, with the datagram if this is where it receives one, a step of the
handler, or what the other threads make of the buffers they share with the handler. -/
inductive PacketTurn where
  | listener (wire : Datagram)
  | handler
  | others (requests : List RetransmitRequest) (reorderBuffer : MarketReorderBuffer)

namespace PacketMachine

def init (memory : Nat → MessageMemory) (handler : HandlerState) : PacketMachine :=
  ⟨LazyRingMachine.init memory, handler, [], []⟩

def listenerStep (m : PacketMachine) (wire : Datagram) : PacketMachine :=
  let packets := m.udpPacketBuffer
  match packets.producer with
  | .claimed slot =>
    { m with
      udpPacketBuffer := packets.producerStep ((packets.ring.buffer slot).receive wire)
      received := m.received ++ [wire] }
  -- no item is written here
  | _ => { m with udpPacketBuffer := packets.producerStep (packets.ring.buffer 0) }

def handlerStep (build : Build) (m : PacketMachine) : Option PacketMachine :=
  let packets := m.udpPacketBuffer
  match packets.consumer with
  | .claimed slot => do
    let (write, handler) ← m.handler.handle build (packets.ring.buffer slot)
    return { m with
      udpPacketBuffer := packets.consumerStep
      handler := handler
      written := m.written ++ write.toList.map (Prod.mk packets.consumed) }
  | _ => some { m with udpPacketBuffer := packets.consumerStep }

def step (build : Build) (m : PacketMachine) : PacketTurn → Option PacketMachine
  | .listener wire => some (m.listenerStep wire)
  | .handler => m.handlerStep build
  | .others requests reorderBuffer =>
    some { m with handler :=
      { m.handler with retransmitRequestBuffer := requests, reorderBuffer := reorderBuffer } }

def run (build : Build) (m : PacketMachine) (turns : List PacketTurn) : Option PacketMachine :=
  turns.foldlM (step build) m

end PacketMachine

/-! ## What a datagram brings -/

namespace Datagram

/-- The header and the payload that the datagram itself has. -/
def header (wire : Datagram) : MessageHeader := (HandlerState.decode wire.val).header

def payload (wire : Datagram) : List UInt8 :=
  field wire.val MessageHeader.packedWireSize BinaryProtocol.bufferSize

/-- It holds a header and an event, and its length is that of a payload with an event. -/
def Complete (wire : Datagram) : Prop :=
  MessageHeader.packedWireSize + BinaryProtocol.bufferSize ≤ wire.val.length ∧
    BinaryProtocol.bufferSize ≤ wire.header.payloadLength.toNat ∧
    wire.header.payloadLength.toNat ≤ maxMessageBytes

instance (wire : Datagram) : Decidable wire.Complete := inferInstanceAs (Decidable (_ ∧ _))

end Datagram

/-- What is written is what the datagram brought, and nothing outside the slot was touched. -/
structure PayloadWrite.FromDatagram (w : PayloadWrite) (wire : Datagram) : Prop where
  header : w.header = wire.header
  payload : w.payload = wire.payload
  used : ∀ s ∈ w.used, s.Within wire.val.length
  length : BinaryProtocol.bufferSize ≤ w.header.payloadLength.toNat ∧
    w.header.payloadLength.toNat ≤ maxMessageBytes
  taken : ∀ s ∈ w.taken, s.Within EncodedMessage.maxWireSize

/-! ## One packet -/

section Packet

variable {build : Build} {wire : Datagram} {write : PayloadWrite}

/-- The datagram stands at the front of the slot. -/
theorem MessageMemory.receive_val (slot : MessageMemory) (wire : Datagram) :
    (slot.receive wire).val = wire.val ++ slot.val.drop wire.val.length := by
  show overwrite slot.val 0 (wire.val.take EncodedMessage.maxWireSize) = _
  rw [List.take_of_length_le wire.property, overwrite, List.take_zero, List.nil_append, Nat.zero_add]

theorem items_receive (slot : MessageMemory) {s : Span} (h : s.Within wire.val.length) :
    s.items (slot.receive wire).val = s.items wire.val := by
  rw [MessageMemory.receive_val]
  exact Span.items_append h _

/-- The header does not depend on the slot if the datagram has one. -/
theorem header_receive (slot : MessageMemory) (h : MessageHeader.packedWireSize ≤ wire.val.length) :
    (HandlerState.decode (slot.receive wire).val).header = wire.header := by
  have hnumber : field (slot.receive wire).val 0 8 = field wire.val 0 8 :=
    items_receive slot (show (Span.mk 0 8).Within wire.val.length from Nat.le_trans (by decide) h)
  have hlength : field (slot.receive wire).val 8 2 = field wire.val 8 2 :=
    items_receive slot (show (Span.mk 8 2).Within wire.val.length from h)
  simp only [HandlerState.decode, EncodedMessage.decodeHeaderFromBuffer, Datagram.header, hnumber, hlength]

theorem payloadSpan_eq {header : MessageHeader} {payload : Span}
    (h : EncodedMessage.payloadSpan build header = some payload) : payload = EncodedMessage.payloadPart header := by
  rw [EncodedMessage.payloadSpan] at h
  split at h
  · cases h
  · exact (Option.some.inj h).symm

/-- What is written is a function of the bytes in the slot. -/
def slotWrite (packet : MessageMemory) : PayloadWrite :=
  let newPacket := HandlerState.decode packet.val
  newPacket.payloadWrite (EncodedMessage.payloadPart newPacket.header)

theorem writePayload_write {b b' : MarketReorderBuffer} {newPacket : EncodedMessage}
    (h : writePayload build b newPacket = some (some write, b')) :
    write = newPacket.payloadWrite (EncodedMessage.payloadPart newPacket.header) := by
  rw [writePayload, Option.bind_eq_bind, Option.bind_eq_some_iff] at h
  obtain ⟨payload, hpayload, h⟩ := h
  rw [← payloadSpan_eq hpayload]
  simp only [Option.pure_def, Option.some.injEq, Prod.mk.injEq] at h
  obtain ⟨hwrite, -⟩ := h
  split at hwrite
  · exact (Option.some.inj hwrite).symm
  · cases hwrite

theorem HandlerState.handle_write {state state' : HandlerState} {packet : MessageMemory}
    (h : state.handle build packet = some (some write, state')) : write = slotWrite packet := by
  simp only [handle] at h
  by_cases hfull : (state.gapDetector.hasGap (decode packet.val).header).1.isSome ∧
      state.retransmitRequestBuffer.length = retransmitBufferSize
  · rw [if_pos hfull] at h
    cases h
  · rw [if_neg hfull] at h
    obtain ⟨⟨write', b'⟩, hwritten, h⟩ := Option.bind_eq_some_iff.mp h
    obtain ⟨rfl, -⟩ := Prod.mk.inj (Option.some.inj h)
    exact writePayload_write hwritten

/-- The event ends last of what is read. -/
theorem slotWrite_used (packet : MessageMemory) (n : Nat) :
    (∀ s ∈ (slotWrite packet).used, s.Within n) ↔
      MessageHeader.packedWireSize + BinaryProtocol.bufferSize ≤ n := by
  simp only [slotWrite, EncodedMessage.payloadWrite, EncodedMessage.headerSpans, EncodedMessage.payloadPart,
    EncodedMessage.wholeBuffer, eventSpan, Span.subspan_subspan, List.forall_mem_append, List.forall_mem_cons,
    List.not_mem_nil, false_implies, implies_true, and_true, Span.subspan_whole_within, MessageHeader.packedWireSize]
  omega

/-- Only the payload can end outside of the slot. -/
theorem slotWrite_taken (packet : MessageMemory) :
    (∀ s ∈ (slotWrite packet).taken, s.Within EncodedMessage.maxWireSize) ↔
      (slotWrite packet).header.payloadLength.toNat ≤ maxMessageBytes := by
  simp only [slotWrite, EncodedMessage.payloadWrite, EncodedMessage.headerSpans, EncodedMessage.payloadPart,
    EncodedMessage.wholeBuffer, eventSpan, Span.subspan_subspan, List.forall_mem_append, List.forall_mem_cons,
    List.not_mem_nil, false_implies, implies_true, and_true, Span.subspan_whole_within, Span.whole_within,
    MessageHeader.packedWireSize, EncodedMessage.maxWireSize, BinaryProtocol.bufferSize, maxMessageBytes]
  omega

theorem fromDatagram_of_complete (slot : MessageMemory) (h : wire.Complete) :
    (slotWrite (slot.receive wire)).FromDatagram wire := by
  obtain ⟨hwire, hlower, hupper⟩ := h
  have hheader : (slotWrite (slot.receive wire)).header = wire.header :=
    header_receive slot (Nat.le_trans (Nat.le_add_right _ _) hwire)
  have hevent : (Span.mk 10 18).Within wire.val.length := hwire
  exact {
    header := hheader
    payload := items_receive slot hevent
    used := (slotWrite_used _ _).mpr hwire
    length := hheader ▸ ⟨hlower, hupper⟩
    taken := (slotWrite_taken _).mpr (hheader ▸ hupper) }

theorem fromDatagram_iff_complete (slot : MessageMemory) (wire : Datagram) :
    (slotWrite (slot.receive wire)).FromDatagram wire ↔ wire.Complete := by
  constructor
  · intro h
    exact ⟨(slotWrite_used _ _).mp h.used, h.header ▸ h.length⟩
  · exact fromDatagram_of_complete slot

/-! The system of threads has the same rounds, in a build with assertions and on payloads with an event. -/

def System.handlerState (s : System) : HandlerState := ⟨s.gapDetector, s.retransmitRequestBuffer, s.reorderBuffer⟩

@[simp] theorem System.handlerState_gapDetector (s : System) : s.handlerState.gapDetector = s.gapDetector := rfl

@[simp] theorem System.handlerState_requests (s : System) :
    s.handlerState.retransmitRequestBuffer = s.retransmitRequestBuffer := rfl

@[simp] theorem System.handlerState_reorderBuffer (s : System) : s.handlerState.reorderBuffer = s.reorderBuffer := rfl

theorem writeMarketData_eq (b : MarketReorderBuffer) {event : List UInt8}
    (hevent : BinaryProtocol.bufferSize ≤ event.length) (packetId : UInt64) :
    ∃ result, writeMarketDataToReorderBuffer b event packetId =
      some (result, (b.tryWriteTo (event.take BinaryProtocol.bufferSize) packetId.toNat).2) := by
  rw [writeMarketDataToReorderBuffer, if_pos hevent]
  rcases b.tryWriteTo (event.take BinaryProtocol.bufferSize) packetId.toNat with ⟨status, b'⟩
  cases status with
  | likelySlowReader | likelySlowWriter | success | alreadyWritten => exact ⟨_, rfl⟩

/-- With assertions, and on a payload with an event, the call that `handlerStep` makes. -/
theorem writePayload_debug {b : MarketReorderBuffer} {newPacket : EncodedMessage}
    (hbuffer : newPacket.buffer.length = EncodedMessage.maxWireSize)
    (hlength : BinaryProtocol.bufferSize ≤ newPacket.header.payloadLength.toNat) :
    (writePayload .debug b newPacket).map Prod.snd = (newPacket.getPayloadRef.bind fun payload =>
      writeMarketDataToReorderBuffer b payload newPacket.header.sequenceNumber).map Prod.snd := by
  by_cases hfits : newPacket.header.payloadLength.toNat ≤ maxMessageBytes
  · have hsize : (field newPacket.buffer MessageHeader.packedWireSize newPacket.header.payloadLength.toNat).length =
        newPacket.header.payloadLength.toNat := by
      rw [field, List.length_take, List.length_drop, hbuffer, EncodedMessage.maxWireSize]
      omega
    have hevent : (field newPacket.buffer MessageHeader.packedWireSize newPacket.header.payloadLength.toNat).take
        BinaryProtocol.bufferSize =
          (newPacket.payloadWrite (EncodedMessage.payloadPart newPacket.header)).payload := by
      rw [field, List.take_take, Nat.min_eq_left hlength]
      rfl
    have href : newPacket.getPayloadRef =
        some (field newPacket.buffer MessageHeader.packedWireSize newPacket.header.payloadLength.toNat) := if_pos hfits
    have hspan : EncodedMessage.payloadSpan .debug newPacket.header =
        some (EncodedMessage.payloadPart newPacket.header) :=
      if_neg fun h => Nat.not_lt.mpr hfits h.2
    obtain ⟨result, hwrite⟩ := writeMarketData_eq b (hsize.symm ▸ hlength) newPacket.header.sequenceNumber
    rw [href, Option.bind_some, hwrite, hevent, writePayload, hspan]
    rfl
  · have href : newPacket.getPayloadRef = none := if_neg hfits
    have hspan : EncodedMessage.payloadSpan .debug newPacket.header = none :=
      if_pos ⟨rfl, Nat.not_le.mp hfits⟩
    rw [href, writePayload, hspan]
    rfl

theorem handlerStep_writing {s : System} {newPacket : EncodedMessage} (hwriting : s.handler = .writing)
    (hpacket : s.udpPacketBuffer.head? = some newPacket)
    (hbuffer : newPacket.buffer.length = EncodedMessage.maxWireSize)
    (hlength : BinaryProtocol.bufferSize ≤ newPacket.header.payloadLength.toNat) :
    s.handlerStep.map System.handlerState =
      (writePayload .debug s.reorderBuffer newPacket).map fun written =>
        { s.handlerState with reorderBuffer := written.2 } := by
  have hdebug := writePayload_debug (b := s.reorderBuffer) hbuffer hlength
  have hafter : (writePayload .debug s.reorderBuffer newPacket).map (fun written =>
      ({ s.handlerState with reorderBuffer := written.2 } : HandlerState)) =
      ((writePayload .debug s.reorderBuffer newPacket).map Prod.snd).map fun b =>
        { s.handlerState with reorderBuffer := b } := (Option.map_map ..).symm
  rw [hafter, hdebug]
  simp only [System.handlerStep, hwriting, hpacket, Option.bind_eq_bind, Option.bind_some]
  cases newPacket.getPayloadRef with
  | none => rfl
  | some payload =>
    simp only [Option.bind_some]
    cases writeMarketDataToReorderBuffer s.reorderBuffer payload newPacket.header.sequenceNumber with
    | none => rfl
    | some written => rfl

theorem HandlerState.handle_full (build : Build) (h : HandlerState) (packet : MessageMemory)
    {request : RetransmitRequest} {gapDetector : GapDetector}
    (hgap : h.gapDetector.hasGap (decode packet.val).header = (some request, gapDetector))
    (hfull : h.retransmitRequestBuffer.length = retransmitBufferSize) :
    h.handle build packet = some (none, { h with gapDetector := gapDetector }) := by
  have hstop : (some request).isSome ∧ h.retransmitRequestBuffer.length = retransmitBufferSize := ⟨rfl, hfull⟩
  simp only [handle, hgap, if_pos hstop]

theorem HandlerState.handle_map (build : Build) (h : HandlerState) (packet : MessageMemory)
    {request : Option RetransmitRequest} {gapDetector : GapDetector}
    (hgap : h.gapDetector.hasGap (decode packet.val).header = (request, gapDetector))
    (hroom : ¬ (request.isSome ∧ h.retransmitRequestBuffer.length = retransmitBufferSize)) :
    (h.handle build packet).map Prod.snd = (writePayload build h.reorderBuffer (decode packet.val)).map fun written =>
      ⟨gapDetector, h.retransmitRequestBuffer ++ request.toList, written.2⟩ := by
  simp only [handle, hgap, if_neg hroom]
  cases writePayload build h.reorderBuffer (decode packet.val) <;> rfl

section Rounds

variable {s : System} {packet : EncodedMessage} {packets : List EncodedMessage} {request : Option RetransmitRequest}
  {gapDetector : GapDetector}

theorem System.run_handler_two {feed : Feed} {s' : System} (hstep : s.handlerStep = some s') :
    s.run feed (List.replicate 2 .handler) = s'.handlerStep := by
  show s.handlerStep.bind (fun t => t.handlerStep.bind some) = _
  rw [hstep, Option.bind_some, Option.bind_fun_some]

theorem System.run_handler_three {feed : Feed} {s' s'' : System} (hstep : s.handlerStep = some s')
    (hstep' : s'.handlerStep = some s'') : s.run feed (List.replicate 3 .handler) = s''.handlerStep := by
  show s.handlerStep.bind (fun t => t.run feed (List.replicate 2 .handler)) = _
  rw [hstep, Option.bind_some, run_handler_two hstep']

theorem handlerStep_waiting (hwaiting : s.handler = .waiting) (hpackets : s.udpPacketBuffer = packet :: packets)
    (hgap : s.gapDetector.hasGap (HandlerState.decode packet.buffer).header = (request, gapDetector)) :
    s.handlerStep = some { s with
      udpPacketBuffer := HandlerState.decode packet.buffer :: packets
      gapDetector := gapDetector
      handler := request.elim .writing .pushing } := by
  have hdecode : packet.decodeHeaderFromBuffer = HandlerState.decode packet.buffer := rfl
  simp only [System.handlerStep, hwaiting, hpackets, hdecode, hgap]
  cases request <;> rfl

theorem handlerStep_pushing {request : RetransmitRequest} (hpushing : s.handler = .pushing request)
    (hroom : s.retransmitRequestBuffer.length ≠ retransmitBufferSize) :
    s.handlerStep = some { s with
      retransmitRequestBuffer := s.retransmitRequestBuffer ++ [request]
      handler := .writing } := by
  simp only [System.handlerStep, hpushing, if_neg hroom]

theorem handlerStep_full {request : RetransmitRequest} (hpushing : s.handler = .pushing request)
    (hfull : s.retransmitRequestBuffer.length = retransmitBufferSize) :
    s.handlerStep = some { s.report .retransmitRequestBufferFull with handler := .stopped } := by
  simp only [System.handlerStep, hpushing, if_pos hfull]

/-- A round is two steps of the thread, or three if it pushes a request. -/
theorem run_handler_eq_handle (feed : Feed) (hwaiting : s.handler = .waiting)
    (hpackets : s.udpPacketBuffer = packet :: packets) (hbuffer : packet.buffer.length = EncodedMessage.maxWireSize)
    (hlength : BinaryProtocol.bufferSize ≤ (HandlerState.decode packet.buffer).header.payloadLength.toNat) :
    ∃ steps, (s.run feed (List.replicate steps .handler)).map System.handlerState =
      (s.handlerState.handle .debug ⟨packet.buffer, hbuffer⟩).map Prod.snd := by
  have hwrite (t : System) (hwriting : t.handler = .writing)
      (hpacket : t.udpPacketBuffer = HandlerState.decode packet.buffer :: packets) :
      t.handlerStep.map System.handlerState =
        (writePayload .debug t.reorderBuffer (HandlerState.decode packet.buffer)).map fun written =>
          ⟨t.gapDetector, t.retransmitRequestBuffer, written.2⟩ := by
    have hhead : t.udpPacketBuffer.head? = some (HandlerState.decode packet.buffer) := hpacket ▸ rfl
    exact handlerStep_writing hwriting hhead hbuffer hlength
  rcases hgap : s.gapDetector.hasGap (HandlerState.decode packet.buffer).header with ⟨_ | request, gapDetector⟩
  · have hwaited := handlerStep_waiting hwaiting hpackets hgap
    have hhandle := HandlerState.handle_map .debug s.handlerState ⟨packet.buffer, hbuffer⟩ hgap
      fun h => Bool.noConfusion h.1
    refine ⟨2, ?_⟩
    rw [hhandle, System.run_handler_two hwaited, hwrite _ rfl rfl]
    simp
  · have hwaited := handlerStep_waiting hwaiting hpackets hgap
    by_cases hfull : s.retransmitRequestBuffer.length = retransmitBufferSize
    · have hhandle := HandlerState.handle_full .debug s.handlerState ⟨packet.buffer, hbuffer⟩ hgap hfull
      refine ⟨2, ?_⟩
      rw [hhandle, System.run_handler_two hwaited, handlerStep_full]
      · rfl
      · rfl
      · exact hfull
    · have hhandle := HandlerState.handle_map .debug s.handlerState ⟨packet.buffer, hbuffer⟩ hgap
        fun h => hfull h.2
      refine ⟨3, ?_⟩
      rw [hhandle, System.run_handler_three hwaited (handlerStep_pushing rfl hfull), hwrite _ rfl rfl]
      simp

end Rounds

end Packet

/-! ## Runs -/

namespace LazyRingBuffer

variable {T : Type}

/-- The item that is written and not yet published. -/
def ProducerPc.pending : ProducerPc T → List T
  | .idle | .claiming _ | .claimed _ => []
  | .written item | .publishing item _ => [item]

end LazyRingBuffer

namespace LazyRingMachine

variable {T : Type} {bits : Fin 64} {m : LazyRingMachine T bits}

/-- All items that were ever written. -/
def sent (m : LazyRingMachine T bits) : List T := m.published ++ m.producer.pending

theorem sent_write {slot : Nat} (h : m.producer = .claimed slot) (item : T) :
    (m.producerStep item).sent = m.sent ++ [item] := by
  simp only [sent, producerStep, h, LazyRingBuffer.ProducerPc.pending, List.append_nil]

theorem sent_producerStep (h : ∀ slot, m.producer ≠ .claimed slot) (item : T) :
    (m.producerStep item).sent = m.sent := by
  simp only [sent, producerStep]
  split
  case _ hpc => simp only [hpc, LazyRingBuffer.ProducerPc.pending]
  case _ hpc => split <;> simp only [hpc, LazyRingBuffer.ProducerPc.pending]
  case _ slot hpc => exact absurd hpc (h slot)
  case _ hpc => simp only [hpc, LazyRingBuffer.ProducerPc.pending]
  case _ hpc => simp only [hpc, LazyRingBuffer.ProducerPc.pending, List.append_nil]

theorem sent_consumerStep (m : LazyRingMachine T bits) : m.consumerStep.sent = m.sent := by
  simp only [sent, consumerStep]
  split
  case _ => rfl
  case _ => split <;> rfl
  case _ => rfl
  case _ => rfl
  case _ => rfl

/-- A claimed slot holds the item that is consumed next. -/
theorem Sound.claimed_item (h : m.Sound) {slot : Nat} (hclaimed : m.consumer = .claimed slot) :
    m.sent[m.consumed]? = some (m.ring.buffer slot) := by
  have hslot := h.consumer
  have hchannel := h.channel
  rw [hclaimed] at hslot
  have hbusy : m.toChannel.consumer ≠ .idle := by
    simp only [toChannel, hclaimed, LazyRingBuffer.ConsumerPc.stage, ne_eq, reduceCtorEq, not_false_eq_true]
  have hitem : m.consumed < m.published.length := hchannel.item hbusy
  rw [sent, List.getElem?_append_left hitem, (hslot : slot = m.consumed % 2 ^ bits.val)]
  exact hchannel.contents m.consumed (Nat.le_refl _) hitem

end LazyRingMachine

namespace PacketMachine

variable {build : Build} {m m' : PacketMachine}

structure Sound (m : PacketMachine) : Prop where
  ring : m.udpPacketBuffer.Sound
  received : List.Forall₂ (fun packet wire => ∃ slot : MessageMemory, packet = slot.receive wire)
    m.udpPacketBuffer.sent m.received
  written : ∀ k w, (k, w) ∈ m.written →
    ∃ wire, m.received[k]? = some wire ∧ (w.FromDatagram wire ↔ wire.Complete)

theorem sound_init (memory : Nat → MessageMemory) (handler : HandlerState) : (init memory handler).Sound where
  ring := LazyRingMachine.sound_init memory
  received := .nil
  written := by simp [init]

theorem Sound.listenerStep (h : m.Sound) (wire : Datagram) : (m.listenerStep wire).Sound := by
  simp only [PacketMachine.listenerStep]
  split
  · rename_i slot hclaimed
    refine ⟨h.ring.producerStep _, ?_, ?_⟩
    · rw [LazyRingMachine.sent_write hclaimed]
      exact List.rel_append h.received (.cons ⟨m.udpPacketBuffer.ring.buffer slot, rfl⟩ .nil)
    · intro k w hw
      obtain ⟨wire', hk, hiff⟩ := h.written k w hw
      obtain ⟨hlt, -⟩ := List.getElem?_eq_some_iff.mp hk
      exact ⟨wire', (List.getElem?_append_left hlt).trans hk, hiff⟩
  · rename_i hother
    refine ⟨h.ring.producerStep _, ?_, h.written⟩
    rw [LazyRingMachine.sent_producerStep hother]
    exact h.received

/-- What the handler has claimed is a datagram that was received into some slot. -/
theorem Sound.claimed_packet (h : m.Sound) {slot : Nat} (hclaimed : m.udpPacketBuffer.consumer = .claimed slot) :
    ∃ wire, m.received[m.udpPacketBuffer.consumed]? = some wire ∧
      ∃ old : MessageMemory, m.udpPacketBuffer.ring.buffer slot = old.receive wire := by
  have hitem := h.ring.claimed_item hclaimed
  obtain ⟨hlt, hget⟩ := List.getElem?_eq_some_iff.mp hitem
  have hreceived : m.udpPacketBuffer.consumed < m.received.length := h.received.length_eq ▸ hlt
  refine ⟨_, List.getElem?_eq_getElem hreceived, ?_⟩
  rw [← hget]
  exact h.received.get hlt hreceived

theorem Sound.handlerStep (h : m.Sound) (hstep : m.handlerStep build = some m') : m'.Sound := by
  simp only [PacketMachine.handlerStep] at hstep
  split at hstep
  · rename_i slot hclaimed
    obtain ⟨⟨write, handler⟩, hhandle, hrest⟩ := Option.bind_eq_some_iff.mp hstep
    obtain rfl := Option.some.inj hrest
    refine ⟨h.ring.consumerStep, ?_, ?_⟩
    · rw [LazyRingMachine.sent_consumerStep]
      exact h.received
    · intro k w hw
      rcases List.mem_append.mp hw with hold | hnew
      · exact h.written k w hold
      · obtain ⟨write', hsome, hpair⟩ := List.mem_map.mp hnew
        obtain ⟨rfl, rfl⟩ := Prod.mk.inj hpair
        have hwrite : write = some write' := Option.mem_toList.mp hsome
        rw [hwrite] at hhandle
        obtain ⟨wire, hwire, old, hold⟩ := h.claimed_packet hclaimed
        refine ⟨wire, hwire, ?_⟩
        rw [HandlerState.handle_write hhandle, hold]
        exact fromDatagram_iff_complete old wire
  · obtain rfl := Option.some.inj hstep
    refine ⟨h.ring.consumerStep, ?_, h.written⟩
    rw [LazyRingMachine.sent_consumerStep]
    exact h.received

theorem Sound.step (h : m.Sound) {turn : PacketTurn} (hstep : m.step build turn = some m') : m'.Sound := by
  cases turn with
  | listener wire =>
    obtain rfl := Option.some.inj hstep
    exact h.listenerStep wire
  | handler => exact h.handlerStep hstep
  | others requests reorderBuffer =>
    obtain rfl := Option.some.inj hstep
    exact ⟨h.ring, h.received, h.written⟩

theorem Sound.run {turns : List PacketTurn} (h : m.Sound) (hrun : m.run build turns = some m') : m'.Sound := by
  induction turns generalizing m with
  | nil =>
    obtain rfl := Option.some.inj hrun
    exact h
  | cons turn turns ih =>
    obtain ⟨m₁, hstep, hrest⟩ := Option.bind_eq_some_iff.mp hrun
    exact ih (h.step hstep) hrest

/-- In every run the handler writes from the datagram it handles, and stays in the slot,
exactly if that datagram is complete. -/
theorem written_fromDatagram_iff (build : Build) (memory : Nat → MessageMemory) (handler : HandlerState)
    {turns : List PacketTurn} (hrun : (init memory handler).run build turns = some m) {k : Nat} {w : PayloadWrite}
    (hw : (k, w) ∈ m.written) :
    ∃ wire, m.received[k]? = some wire ∧ (w.FromDatagram wire ↔ wire.Complete) :=
  ((sound_init memory handler).run hrun).written k w hw

end PacketMachine

/-! ## A header without a payload -/

/-- Memory in which every byte is nine. -/
def ninesMemory : MessageMemory := ⟨List.replicate EncodedMessage.maxWireSize 9, List.length_replicate⟩

/-- The listener receives a datagram and publishes it, then the handler takes its slot. -/
def receiveAndHandle (wire : Datagram) : List PacketTurn :=
  List.replicate 5 (.listener wire) ++ List.replicate 3 .handler

def handleOnce (build : Build) (wire : Datagram) : Option PacketMachine :=
  (PacketMachine.init (fun _ => ninesMemory) (HandlerState.init fun _ => [])).run build (receiveAndHandle wire)

theorem exists_handleOnce {build : Build} {wire : Datagram} {written : List (Nat × PayloadWrite)}
    (h : (handleOnce build wire).map (fun m => (m.received, m.written)) = some ([wire], written)) :
    ∃ m, handleOnce build wire = some m ∧ m.received = [wire] ∧ m.written = written := by
  obtain ⟨m, hm, hpair⟩ := Option.map_eq_some_iff.mp h
  exact ⟨m, hm, (Prod.mk.inj hpair).1, (Prod.mk.inj hpair).2⟩

/-- The first packet of a feed. -/
def firstPacket : Datagram :=
  ⟨(⟨firstSequenceId, 18⟩ : MessageHeader).serialize ++ BinaryProtocol.encode ⟨⟨1, 100, 5, .buy⟩, .add⟩, by decide⟩

theorem written_fromDatagram_iff_firstPacket :
    ∃ m w, handleOnce .debug firstPacket = some m ∧ (0, w) ∈ m.written ∧
      ∃ wire, m.received[0]? = some wire ∧ (w.FromDatagram wire ↔ wire.Complete) := by
  obtain ⟨m, hrun, -, hwritten⟩ := exists_handleOnce
    (show (handleOnce .debug firstPacket).map (fun m => (m.received, m.written)) =
      some ([firstPacket], [(0, slotWrite (ninesMemory.receive firstPacket))]) by decide)
  have hw : (0, slotWrite (ninesMemory.receive firstPacket)) ∈ m.written := hwritten ▸ List.mem_singleton_self _
  exact ⟨m, _, hrun, hw, PacketMachine.written_fromDatagram_iff _ _ _ hrun hw⟩

/-- The header of the first packet, and nothing after it. -/
def headerOnly : Datagram := ⟨(⟨firstSequenceId, 18⟩ : MessageHeader).serialize, by decide⟩

/-- All of the payload written for it was in the slot before. -/
theorem headerOnly_writes_leftover :
    ∃ m w, handleOnce .debug headerOnly = some m ∧ m.received = [headerOnly] ∧ (0, w) ∈ m.written ∧
      w.payload = List.replicate 18 9 ∧ ¬ w.FromDatagram headerOnly := by
  obtain ⟨m, hrun, hreceived, hwritten⟩ := exists_handleOnce
    (show (handleOnce .debug headerOnly).map (fun m => (m.received, m.written)) =
      some ([headerOnly], [(0, slotWrite (ninesMemory.receive headerOnly))]) by decide)
  refine ⟨m, _, hrun, hreceived, hwritten ▸ List.mem_singleton_self _, by decide, ?_⟩
  intro h
  exact absurd h.payload (by decide)

end HftPipeline
