import HftPipeline.Wire
import HftPipeline.ReorderBuffer

/-!
# The market data handler

The exchange's feed and the four threads of `MarketDataHandler`: the real-time
listener, the gap detection, the retransmit client and the market event publisher.
A thread's next step is a function of the state of the system; whoever drives the
system picks the thread, and for the network which packet arrives or what fails. A
step that is not possible changes nothing. A failed assertion is `none`.

A thread that reports an error returns. It also asks the others to stop; here they
may run on, and one that has stopped is one that is not picked any more.
-/
namespace HftPipeline

/-- `handler::Error`. -/
inductive HandlerError where
  | startUdpListener | invalidMulticastGroup | udpListen | handlerTooSlow
  | startRetransmitClient | invalidRetransmitServer | connectToRetransmitServer | retransmitServer
  | retransmitClientSend | retransmitClientReceive
  | readerTooFarBehind | writerTooFarBehind | retransmitRequestBufferFull
  deriving DecidableEq, Repr

/-- `first_packet` to `last_packet`, the last one excluded. -/
structure RetransmitRequest where
  firstPacket : UInt64
  lastPacket : UInt64
  deriving DecidableEq, Repr

structure GapDetector where
  mostRecentPacketId : UInt64
  deriving DecidableEq, Repr

namespace GapDetector

def init : GapDetector := ⟨firstSequenceId - 1⟩

def hasGap (g : GapDetector) (newPacketHeader : MessageHeader) : Option RetransmitRequest × GapDetector :=
  let newSequenceId := newPacketHeader.sequenceNumber
  if g.mostRecentPacketId + 1 < newSequenceId then
    (some ⟨g.mostRecentPacketId + 1, newSequenceId⟩, ⟨newSequenceId⟩)
  else if newSequenceId = g.mostRecentPacketId + 1 then (none, ⟨g.mostRecentPacketId + 1⟩)
  else (none, g)

end GapDetector

/-- `config::UDP_PACKET_BUFFER_SIZE`. -/
def udpPacketBufferSize : Nat := 2 ^ 15

/-- `config::RETRANSMIT_BUFFER_SIZE`. -/
def retransmitBufferSize : Nat := 2 ^ 8

/-- `MarketReorderBuffer`, of `config::REORDER_BUFFER_SIZE` slots. -/
abbrev MarketReorderBuffer := ReorderBuffer (List UInt8) 15

def writeMarketDataToReorderBuffer (b : MarketReorderBuffer) (event : List UInt8) (packetId : UInt64) :
    Option (Except HandlerError Unit × MarketReorderBuffer) :=
  if BinaryProtocol.bufferSize ≤ event.length then
    let (result, b) := b.tryWriteTo (event.take BinaryProtocol.bufferSize) packetId.toNat
    match result with
    | .likelySlowReader => some (.error .readerTooFarBehind, b)
    | .likelySlowWriter => some (.error .writerTooFarBehind, b)
    | .success | .alreadyWritten => some (.ok (), b)
  else none

/-! ## Reading from the network -/

/-- A datagram read into the buffer of a message. -/
def EncodedMessage.receiveDatagram (slot : EncodedMessage) (wire : List UInt8) : EncodedMessage :=
  { slot with buffer := overwrite slot.buffer 0 (wire.take EncodedMessage.maxWireSize) }

/-- `receive_and_decode_header` and `receive_payload` on what the server sends. -/
def EncodedMessage.receiveStream (newMessage : EncodedMessage) (wire : List UInt8) :
    Option (Except HandlerError EncodedMessage) :=
  let headed : EncodedMessage := EncodedMessage.decodeHeaderFromBuffer
    { newMessage with buffer := overwrite newMessage.buffer 0 (wire.take MessageHeader.packedWireSize) }
  let length := headed.header.payloadLength.toNat
  if headed.header.sequenceNumber = 0 then some (.error .retransmitServer)
  else if 0 < length ∧ length ≤ maxMessageBytes then
    some (.ok { headed with
      buffer := overwrite headed.buffer MessageHeader.packedWireSize
        (field wire MessageHeader.packedWireSize length) })
  else none

/-! ## Threads -/

/-- `RealTimeListener::run`: with or without a slot to receive into. -/
inductive ListenerPc where
  | claiming | receiving | stopped
  deriving DecidableEq, Repr

/-- `MarketDataHandler::run`, between its calls. The packet stays at the tail of the
packet buffer until `consume`. -/
inductive HandlerPc where
  | waiting
  | pushing (request : RetransmitRequest)
  | writing
  | consuming (result : Except HandlerError Unit)
  | stopped

/-- `RetransmitListener::run` with `handle_request`, between its calls. -/
inductive ClientPc where
  | waiting
  | sending (request : RetransmitRequest)
  | receiving (request : RetransmitRequest)
  | writing (request : RetransmitRequest) (newMessage : EncodedMessage)
  | stopped

/-- `MarketEventPublisher::run`: with or without an item to publish. -/
inductive PublisherPc where
  | waiting
  | publishing (item : List UInt8)

instance (pc : PublisherPc) : Decidable (pc = .waiting) :=
  match pc with
  | .waiting => .isTrue rfl
  | .publishing _ => .isFalse nofun

/-- What the exchange publishes. Its packets have the numbers `1, 2, …`, and these
are 64-bit. `memory` is what each new message finds in its buffer. -/
structure Feed where
  events : List MarketEvent
  memory : Nat → List UInt8
  memory_length : ∀ k, (memory k).length = EncodedMessage.maxWireSize
  fits : events.length < 2 ^ 64

/-- `received` and `errors` are records of what has happened; no thread reads them. -/
structure System where
  sequencer : Sequencer
  retransmitCache : List EncodedMessage
  broadcast : Nat
  udpPacketBuffer : List EncodedMessage
  listener : ListenerPc
  gapDetector : GapDetector
  handler : HandlerPc
  retransmitRequestBuffer : List RetransmitRequest
  client : ClientPc
  reorderBuffer : MarketReorderBuffer
  publisher : PublisherPc
  published : List MarketEvent
  received : List UInt64
  errors : List HandlerError

/-- The exchange sequences and caches the next event, or broadcasts the next cached
message; a broadcast message arrives; a thread takes its next step or has an error
from the network. -/
inductive Pick where
  | sequence
  | broadcast
  | listener
  | arrive (message : Nat) (slot : EncodedMessage)
  | listenerError
  | handler
  | client (memory : EncodedMessage)
  | clientError (error : HandlerError)
  | publisher

namespace System

def init (memory : Nat → List UInt8) : System where
  sequencer := Sequencer.init
  retransmitCache := []
  broadcast := 0
  udpPacketBuffer := []
  listener := .claiming
  gapDetector := GapDetector.init
  handler := .waiting
  retransmitRequestBuffer := []
  client := .waiting
  reorderBuffer := ReorderBuffer.new memory firstSequenceId
  publisher := .waiting
  published := []
  received := []
  errors := []

def report (s : System) (error : HandlerError) : System := { s with errors := s.errors ++ [error] }

/-- The cached message with a sequence number, at the index one below it. -/
def cached (s : System) (sequenceNumber : UInt64) : Option EncodedMessage :=
  if sequenceNumber = 0 then none else s.retransmitCache[sequenceNumber.toNat - 1]?

def exchangeStep (feed : Feed) (s : System) : Option System :=
  match feed.events[s.retransmitCache.length]? with
  | none => some s
  | some event => do
    let (message, sequencer) ← s.sequencer.generateMessage event (feed.memory s.retransmitCache.length)
    return { s with sequencer := sequencer, retransmitCache := s.retransmitCache ++ [message] }

def listenerStep (s : System) : System :=
  match s.listener with
  | .claiming =>
    if s.udpPacketBuffer.length = udpPacketBufferSize then
      { s.report .handlerTooSlow with listener := .stopped }
    else { s with listener := .receiving }
  | .receiving | .stopped => s

/-- UDP may deliver a message that was broadcast at any time, again or never. -/
def arrive (s : System) (message : Nat) (slot : EncodedMessage) : System :=
  match s.listener with
  | .receiving =>
    if message < s.broadcast then
      match s.retransmitCache[message]? with
      | some m =>
        { s with
          listener := .claiming
          udpPacketBuffer := s.udpPacketBuffer ++ [slot.receiveDatagram m.message]
          received := s.received ++ [m.header.sequenceNumber] }
      | none => s
    else s
  | .claiming | .stopped => s

def handlerStep (s : System) : Option System :=
  match s.handler with
  | .waiting =>
    match s.udpPacketBuffer with
    | [] => some s
    | slot :: slots =>
      let newPacket := slot.decodeHeaderFromBuffer
      let (request, gapDetector) := s.gapDetector.hasGap newPacket.header
      some { s with
        udpPacketBuffer := newPacket :: slots
        gapDetector := gapDetector
        handler := match request with
          | some request => .pushing request
          | none => .writing }
  | .pushing request =>
    if s.retransmitRequestBuffer.length = retransmitBufferSize then
      some { s.report .retransmitRequestBufferFull with handler := .stopped }
    else
      some { s with
        retransmitRequestBuffer := s.retransmitRequestBuffer ++ [request]
        handler := .writing }
  | .writing => do
    let newPacket ← s.udpPacketBuffer.head?
    let payload ← newPacket.getPayloadRef
    let (result, reorderBuffer) ←
      writeMarketDataToReorderBuffer s.reorderBuffer payload newPacket.header.sequenceNumber
    return { s with reorderBuffer := reorderBuffer, handler := .consuming result }
  | .consuming result =>
    let s := { s with udpPacketBuffer := s.udpPacketBuffer.tail }
    match result with
    | .error error => some { s.report error with handler := .stopped }
    | .ok () => some { s with handler := .waiting }
  | .stopped => some s

/-- The loop test of `handle_request`. -/
def nextPacket (request : RetransmitRequest) : ClientPc :=
  if request.firstPacket < request.lastPacket then .receiving request else .waiting

/-- `memory` is what `new_message` holds before the client receives into it. -/
def clientStep (s : System) (memory : EncodedMessage) : Option System :=
  match s.client with
  | .waiting =>
    match s.retransmitRequestBuffer with
    | [] => some s
    | request :: requests => some { s with retransmitRequestBuffer := requests, client := .sending request }
  | .sending request => some { s with client := nextPacket request }
  | .receiving request =>
    match s.cached request.firstPacket with
    | none => some { s.report .retransmitServer with client := .stopped }
    | some message => do
      match ← memory.receiveStream message.message with
      | .error error => return { s.report error with client := .stopped }
      | .ok newMessage =>
        return { s with
          client := .writing request newMessage
          received := s.received ++ [newMessage.header.sequenceNumber] }
  | .writing request newMessage => do
    let payload ← newMessage.getPayloadRef
    if payload.length = BinaryProtocol.bufferSize ∧
        newMessage.header.sequenceNumber = request.firstPacket then
      let (result, reorderBuffer) ←
        writeMarketDataToReorderBuffer s.reorderBuffer payload newMessage.header.sequenceNumber
      let s := { s with reorderBuffer := reorderBuffer }
      match result with
      | .error error => return { s.report error with client := .stopped }
      | .ok () => return { s with client := nextPacket { request with firstPacket := request.firstPacket + 1 } }
    else none
  | .stopped => some s

/-- Sending the request or receiving an answer may fail. -/
def clientError (s : System) (error : HandlerError) : System :=
  match s.client with
  | .sending _ | .receiving _ => { s.report error with client := .stopped }
  | .waiting | .writing _ _ | .stopped => s

/-- While the market event buffer has no slot for the event, the publisher takes no step. -/
def publisherStep (s : System) : Option System :=
  match s.publisher with
  | .waiting =>
    let (item, reorderBuffer) := s.reorderBuffer.tryConsumeNext
    match item with
    | none => some s
    | some item => some { s with reorderBuffer := reorderBuffer, publisher := .publishing item }
  | .publishing item => do
    let event ← BinaryProtocol.decode item
    return { s with published := s.published ++ [event], publisher := .waiting }

def step (feed : Feed) (s : System) : Pick → Option System
  | .sequence => s.exchangeStep feed
  | .broadcast => some { s with broadcast := min (s.broadcast + 1) s.retransmitCache.length }
  | .listener => some s.listenerStep
  | .arrive message slot => some (s.arrive message slot)
  | .listenerError =>
    match s.listener with
    | .receiving => some { s.report .udpListen with listener := .stopped }
    | .claiming | .stopped => some s
  | .handler => s.handlerStep
  | .client memory => s.clientStep memory
  | .clientError error => some (s.clientError error)
  | .publisher => s.publisherStep

def run (feed : Feed) (s : System) (picks : List Pick) : Option System := picks.foldlM (step feed) s

/-- No packet or retransmit request is on its way through the handler, and nothing
in the reorder buffer can be consumed. -/
def Quiet (s : System) : Prop :=
  s.udpPacketBuffer = [] ∧ s.retransmitRequestBuffer = [] ∧ s.client = .waiting ∧
    s.publisher = .waiting ∧ s.reorderBuffer.tryConsumeNext.1 = none

/-- The highest number of a packet received, zero if there is none. -/
def highestReceived (s : System) : Nat := (s.received.map UInt64.toNat).foldr max 0

end System

end HftPipeline
