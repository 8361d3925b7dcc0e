import HftPipeline.NetworkUtils
import HftPipeline.MarketDataHandler

/-!
# Messages on a stream

The retransmit client reads a header, learns from it how long the payload is, and reads the
payload. However the bytes of the sequenced messages are cut, it reads the messages back.
-/
namespace HftPipeline

open NetworkOrder

/-! ## Requests -/

namespace RetransmitRequest

/-- `PACKED_SIZE`. -/
def packedSize : Nat := 8 + 8

def parse (wire : List UInt8) : Option RetransmitRequest :=
  if wire.length = packedSize then
    some ⟨UInt64.ofNat (toHost (field wire 0 8)), UInt64.ofNat (toHost (field wire 8 8))⟩
  else none

def serialize (request : RetransmitRequest) : List UInt8 :=
  toNetwork 8 request.firstPacket.toNat ++ toNetwork 8 request.lastPacket.toNat

@[simp] theorem length_serialize (request : RetransmitRequest) : request.serialize.length = packedSize := by
  simp [serialize, packedSize]

theorem parse_serialize (request : RetransmitRequest) : parse request.serialize = some request := by
  have hfirst : field request.serialize 0 8 = toNetwork 8 request.firstPacket.toNat := by
    have := field_append [] (toNetwork 8 request.firstPacket.toNat) (toNetwork 8 request.lastPacket.toNat)
    simpa [serialize] using this
  have hlast : field request.serialize 8 8 = toNetwork 8 request.lastPacket.toNat := by
    have := field_append (toNetwork 8 request.firstPacket.toNat) (toNetwork 8 request.lastPacket.toNat) []
    simpa [serialize] using this
  rw [parse, if_pos request.length_serialize, hfirst, hlast, toHost_uInt64, toHost_uInt64]

theorem serialize_of_parse {wire : List UInt8} {request : RetransmitRequest} (h : parse wire = some request) :
    request.serialize = wire := by
  rw [parse] at h
  split at h
  · rename_i hlength
    have hsize : wire.length = 16 := hlength
    have h0 := BinaryProtocol.length_field (show 0 + 8 ≤ wire.length by omega)
    have h8 := BinaryProtocol.length_field (show 8 + 8 ≤ wire.length by omega)
    have hfirst : (UInt64.ofNat (toHost (field wire 0 8))).toNat = toHost (field wire 0 8) :=
      UInt64.toNat_ofNat_of_lt (toHost_lt_of_length h0)
    have hlast : (UInt64.ofNat (toHost (field wire 8 8))).toNat = toHost (field wire 8 8) :=
      UInt64.toNat_ofNat_of_lt (toHost_lt_of_length h8)
    cases h
    rw [serialize, hfirst, hlast, toNetwork_of_length h0, toNetwork_of_length h8, field_add wire 0 8 8, field,
      List.drop_zero]
    exact List.take_of_length_le (Nat.le_of_eq hlength)
  · cases h

end RetransmitRequest

/-! ## The client -/

/-- Why the client gives up: `recv` failed (`RetransmitClientReceive`), or the server closed
the connection or sent an error header, whose length field is the code (`RetransmitServer`). -/
inductive ClientFailure where
  | receive
  | closed
  | server (code : UInt16)
  deriving DecidableEq, Repr

namespace RetransmitListener

def receiveAndDecodeHeader (after : RecvEnd) (newMessage : EncodedMessage) (chunks : List (List UInt8)) :
    Except ClientFailure EncodedMessage × List (List UInt8) :=
  let received := recvRange after chunks newMessage.buffer 0 MessageHeader.packedWireSize
  match received.status with
  | .error _ => (.error .receive, received.chunks)
  | .connectionClosed => (.error .closed, received.chunks)
  | .success =>
    let newMessage := EncodedMessage.decodeHeaderFromBuffer { newMessage with buffer := received.buffer }
    if newMessage.header.sequenceNumber = 0 then
      (.error (.server newMessage.header.payloadLength), received.chunks)
    else (.ok newMessage, received.chunks)

def receivePayload (after : RecvEnd) (newMessage : EncodedMessage) (chunks : List (List UInt8)) :
    Option (Except ClientFailure EncodedMessage × List (List UInt8)) :=
  let length := newMessage.header.payloadLength.toNat
  if 0 < length then do
    let payload ← newMessage.getPayloadRef
    let received := recvRange after chunks payload 0 length
    match received.status with
    | .error _ => return (.error .receive, received.chunks)
    | .connectionClosed => return (.error .closed, received.chunks)
    | .success =>
      let buffer := overwrite newMessage.buffer MessageHeader.packedWireSize received.buffer
      return (.ok { newMessage with buffer := buffer }, received.chunks)
  else none

/-- The loop of `handle_request`, with a `new_message` for each packet it asked for. A failed
assertion is `none`. -/
def receivePackets (after : RecvEnd) : UInt64 → List EncodedMessage → List (List UInt8) →
    Option (List EncodedMessage × Option ClientFailure × List (List UInt8))
  | _, [], chunks => some ([], none, chunks)
  | firstPacket, newMessage :: memory, chunks =>
    match receiveAndDecodeHeader after newMessage chunks with
    | (.error failure, chunks) => some ([], some failure, chunks)
    | (.ok newMessage, chunks) => do
      match ← receivePayload after newMessage chunks with
      | (.error failure, chunks) => return ([], some failure, chunks)
      | (.ok newMessage, chunks) =>
        let payload ← newMessage.getPayloadRef
        if payload.length = BinaryProtocol.bufferSize ∧ newMessage.header.sequenceNumber = firstPacket then
          let (messages, failure, chunks) ← receivePackets after (firstPacket + 1) memory chunks
          return (newMessage :: messages, failure, chunks)
        else none

end RetransmitListener

/-- A message in memory of its size. -/
abbrev MessageSlot := { m : EncodedMessage // m.buffer.length = EncodedMessage.maxWireSize }

/-- The message `notify_and_close` sends. -/
def errorMessage (code : UInt16) (memory : MessageMemory) : Option EncodedMessage :=
  (EncodedMessage.new ⟨0, code⟩ [] memory.val).map EncodedMessage.serialize

/-! ## One packet -/

/-- A message of the sequencer, with what is left of the memory behind it. -/
def Sequencer.packet (s : Sequencer) (event : MarketEvent) (memory : List UInt8) : EncodedMessage :=
  ⟨s.nextHeader, s.nextHeader.serialize ++ (BinaryProtocol.encode event ++ memory)⟩

namespace RetransmitListener

variable {chunks : List (List UInt8)} {slot : EncodedMessage} {header : MessageHeader}
  {rest : List UInt8}

/-- A header arrives as it was serialized, whatever the slot held. -/
theorem recvRange_header (after : RecvEnd) (harrived : Arrived chunks)
    (hslot : slot.buffer.length = EncodedMessage.maxWireSize)
    (hflatten : chunks.flatten = header.serialize ++ rest) :
    ∃ chunks', recvRange after chunks slot.buffer 0 MessageHeader.packedWireSize =
        ⟨.success, header.serialize ++ slot.buffer.drop MessageHeader.packedWireSize,
          MessageHeader.packedWireSize, chunks'⟩ ∧
      Arrived chunks' ∧ chunks'.flatten = rest := by
  have hlength := header.length_serialize
  obtain ⟨chunks', hrange, harrived', hrest⟩ := recvRange_enough after harrived
    (Nat.zero_le MessageHeader.packedWireSize)
    (show MessageHeader.packedWireSize ≤ slot.buffer.length by rw [hslot]; decide)
    (by rw [hflatten, List.length_append, hlength]; exact Nat.le_add_right _ _)
  rw [Nat.sub_zero, hflatten, List.take_left' hlength] at hrange
  rw [Nat.sub_zero, hflatten, List.drop_left' hlength] at hrest
  refine ⟨chunks', ?_, harrived', hrest⟩
  rw [hrange, overwrite, List.take_zero, List.nil_append, Nat.zero_add, hlength]

theorem receiveAndDecodeHeader_ok (after : RecvEnd) (harrived : Arrived chunks)
    (hslot : slot.buffer.length = EncodedMessage.maxWireSize)
    (hflatten : chunks.flatten = header.serialize ++ rest) (hheader : header.sequenceNumber ≠ 0) :
    ∃ chunks', receiveAndDecodeHeader after slot chunks =
        (.ok ⟨header, header.serialize ++ slot.buffer.drop MessageHeader.packedWireSize⟩, chunks') ∧
      Arrived chunks' ∧ chunks'.flatten = rest := by
  obtain ⟨chunks', hrange, hrest⟩ := recvRange_header after harrived hslot hflatten
  refine ⟨chunks', ?_, hrest⟩
  simp only [receiveAndDecodeHeader, hrange, decodeHeaderFromBuffer_eq]
  rw [if_neg hheader]

theorem receiveAndDecodeHeader_error (after : RecvEnd) (harrived : Arrived chunks)
    (hslot : slot.buffer.length = EncodedMessage.maxWireSize)
    (hflatten : chunks.flatten = header.serialize ++ rest) (hheader : header.sequenceNumber = 0) :
    ∃ chunks', receiveAndDecodeHeader after slot chunks = (.error (.server header.payloadLength), chunks') ∧
      Arrived chunks' ∧ chunks'.flatten = rest := by
  obtain ⟨chunks', hrange, hrest⟩ := recvRange_header after harrived hslot hflatten
  refine ⟨chunks', ?_, hrest⟩
  simp only [receiveAndDecodeHeader, hrange, decodeHeaderFromBuffer_eq]
  rw [if_pos hheader]

/-- The payload of an event goes behind the header. -/
theorem receivePayload_ok (after : RecvEnd) {memory : List UInt8} (harrived : Arrived chunks)
    (hmemory : BinaryProtocol.bufferSize ≤ memory.length)
    (hsize : header.payloadLength = UInt16.ofNat BinaryProtocol.bufferSize) {event : MarketEvent}
    (hflatten : chunks.flatten = BinaryProtocol.encode event ++ rest) :
    ∃ chunks', receivePayload after ⟨header, header.serialize ++ memory⟩ chunks =
        some (.ok ⟨header, header.serialize ++ (BinaryProtocol.encode event ++
          memory.drop BinaryProtocol.bufferSize)⟩, chunks') ∧
      Arrived chunks' ∧ chunks'.flatten = rest := by
  have hheader := header.length_serialize
  have hevent := BinaryProtocol.length_encode event
  have hlength : header.payloadLength.toNat = BinaryProtocol.bufferSize := by rw [hsize]; rfl
  have hpayload : EncodedMessage.getPayloadRef ⟨header, header.serialize ++ memory⟩ =
      some (memory.take BinaryProtocol.bufferSize) := by
    simp only [EncodedMessage.getPayloadRef, hlength]
    rw [if_pos (by decide), field, List.drop_left' hheader]
  have htake : (memory.take BinaryProtocol.bufferSize).length = BinaryProtocol.bufferSize :=
    List.length_take_of_le hmemory
  obtain ⟨chunks', hrange, harrived', hrest⟩ := recvRange_enough after harrived
    (Nat.zero_le BinaryProtocol.bufferSize) (Nat.le_of_eq htake.symm)
    (by rw [hflatten, List.length_append, hevent]; exact Nat.le_add_right _ _)
  rw [Nat.sub_zero, hflatten, List.take_left' hevent] at hrange
  rw [Nat.sub_zero, hflatten, List.drop_left' hevent] at hrest
  have hbuffer : overwrite (memory.take BinaryProtocol.bufferSize) 0 (BinaryProtocol.encode event) =
      BinaryProtocol.encode event := by
    rw [overwrite, List.take_zero, List.nil_append, Nat.zero_add, hevent,
      List.drop_of_length_le (Nat.le_of_eq htake), List.append_nil]
  have hwritten : overwrite (header.serialize ++ memory) MessageHeader.packedWireSize
      (BinaryProtocol.encode event) =
      header.serialize ++ (BinaryProtocol.encode event ++ memory.drop BinaryProtocol.bufferSize) := by
    rw [overwrite, List.take_left' hheader, hevent, ← hheader, List.drop_append,
      List.drop_of_length_le (Nat.le_add_right _ _), List.nil_append, Nat.add_sub_cancel_left,
      List.append_assoc]
  refine ⟨chunks', ?_, harrived', hrest⟩
  simp only [receivePayload, hpayload, hlength, hrange, hbuffer, hwritten, Option.bind_eq_bind, Option.bind_some]
  rfl

/-! ## Whole streams -/

/-- One packet of the loop. -/
theorem receivePackets_cons (after : RecvEnd) (harrived : Arrived chunks)
    (hslot : slot.buffer.length = EncodedMessage.maxWireSize) {number : UInt64} (hnumber : number ≠ 0)
    {event : MarketEvent}
    (hflatten : chunks.flatten =
      (Sequencer.nextHeader ⟨number⟩).serialize ++ (BinaryProtocol.encode event ++ rest)) :
    ∃ received chunks', Arrived chunks' ∧ chunks'.flatten = rest ∧
      received.header = Sequencer.nextHeader ⟨number⟩ ∧
      received.getPayloadRef.bind BinaryProtocol.decode = some event ∧
      ∀ slots, receivePackets after number (slot :: slots) chunks =
        (receivePackets after (number + 1) slots chunks').map fun result => (received :: result.1, result.2) := by
  have hmemory : BinaryProtocol.bufferSize ≤ (slot.buffer.drop MessageHeader.packedWireSize).length := by
    rw [List.length_drop, hslot]
    decide
  have hsize : (Sequencer.nextHeader ⟨number⟩).payloadLength = UInt16.ofNat BinaryProtocol.bufferSize := rfl
  obtain ⟨chunks', hhead, harrived', hrest'⟩ := receiveAndDecodeHeader_ok after harrived hslot hflatten hnumber
  obtain ⟨chunks'', hpayload, harrived'', hrest''⟩ := receivePayload_ok after harrived' hmemory hsize hrest'
  have href := getPayloadRef_eq (Sequencer.nextHeader ⟨number⟩) event
    ((slot.buffer.drop MessageHeader.packedWireSize).drop BinaryProtocol.bufferSize) hsize
  refine ⟨Sequencer.packet ⟨number⟩ event
    ((slot.buffer.drop MessageHeader.packedWireSize).drop BinaryProtocol.bufferSize),
    chunks'', harrived'', hrest'', rfl, ?_, ?_⟩
  · rw [Sequencer.packet, href, Option.bind_some, BinaryProtocol.decode_encode]
  · intro slots
    have htests : (BinaryProtocol.encode event).length = BinaryProtocol.bufferSize ∧
        (Sequencer.nextHeader ⟨number⟩).sequenceNumber = number :=
      ⟨BinaryProtocol.length_encode event, rfl⟩
    simp only [receivePackets, hhead, hpayload, Option.bind_eq_bind, Option.bind_some, href]
    rw [if_pos htests]
    cases receivePackets after (number + 1) slots chunks'' <;> rfl

end RetransmitListener

/-- The bytes of a message with a number other than zero. -/
theorem Sequencer.message_eq {number : UInt64} (hnumber : number ≠ 0) (event : MarketEvent)
    (memory : List UInt8) :
    (packet ⟨number⟩ event memory).message = (nextHeader ⟨number⟩).serialize ++ BinaryProtocol.encode event := by
  have hnumber : (nextHeader ⟨number⟩).sequenceNumber ≠ 0 := hnumber
  have hsize : (nextHeader ⟨number⟩).wireSize =
      ((nextHeader ⟨number⟩).serialize ++ BinaryProtocol.encode event).length := by
    rw [MessageHeader.wireSize, if_neg hnumber, List.length_append, MessageHeader.length_serialize,
      BinaryProtocol.length_encode]
    rfl
  rw [EncodedMessage.message, packet, ← List.append_assoc, List.take_left' hsize.symm]

/-- The messages of a list of events, each built in memory of its own. -/
def Sequencer.sequenceAll (s : Sequencer) (events : List (MarketEvent × MessageMemory)) :
    Option (List EncodedMessage × Sequencer) :=
  s.generateAll (events.map fun event => (event.1, event.2.val))

theorem Sequencer.sequenceAll_cons (s : Sequencer) (event : MarketEvent) (memory : MessageMemory)
    (events : List (MarketEvent × MessageMemory)) :
    s.sequenceAll ((event, memory) :: events) = ((⟨s.sequencerCounter + 1⟩ : Sequencer).sequenceAll events).map
      fun result => (s.packet event (memory.val.drop 28) :: result.1, result.2) := by
  simp only [sequenceAll, List.map_cons, generateAll, s.generateMessage_eq event memory.property,
    Option.bind_eq_bind, Option.bind_some]
  cases generateAll _ _ <;> rfl

namespace RetransmitListener

/-- The loop reads the messages of a list of events back, in any chunks, and goes on with the
rest of the stream. -/
theorem receivePackets_sequenced (after : RecvEnd) (events : List (MarketEvent × MessageMemory)) {number : Nat}
    (hpos : 0 < number) (hbound : number + events.length ≤ 2 ^ 64) :
    ∃ sent, (⟨UInt64.ofNat number⟩ : Sequencer).sequenceAll events =
        some (sent, ⟨UInt64.ofNat (number + events.length)⟩) ∧
      ∀ (slots : List MessageSlot) (chunks : List (List UInt8)) (rest : List UInt8),
        slots.length = events.length → Arrived chunks →
        chunks.flatten = (sent.map EncodedMessage.message).flatten ++ rest →
        ∃ received chunks', Arrived chunks' ∧ chunks'.flatten = rest ∧
          received.map EncodedMessage.header = sent.map EncodedMessage.header ∧
          received.map (fun m => m.getPayloadRef.bind BinaryProtocol.decode) = events.map (some ·.1) ∧
          ∀ more, receivePackets after (UInt64.ofNat number) (slots.map Subtype.val ++ more) chunks =
            (receivePackets after (UInt64.ofNat (number + events.length)) more chunks').map
              fun result => (received ++ result.1, result.2) := by
  induction events generalizing number with
  | nil =>
    refine ⟨[], rfl, ?_⟩
    intro slots chunks rest hslots harrived hflatten
    have hnil : slots = [] := List.length_eq_zero_iff.mp hslots
    refine ⟨[], chunks, harrived, hflatten, rfl, rfl, ?_⟩
    intro more
    rw [hnil, List.map_nil, List.nil_append, List.length_nil, Nat.add_zero]
    cases receivePackets after (UInt64.ofNat number) more chunks <;> rfl
  | cons head events ih =>
    obtain ⟨event, memory⟩ := head
    rw [List.length_cons] at hbound
    have hnumber : UInt64.ofNat number ≠ 0 := by
      intro hzero
      have hmod : number % 2 ^ 64 = 0 := by rw [← UInt64.toNat_ofNat', hzero]; rfl
      omega
    have hnext : UInt64.ofNat number + 1 = UInt64.ofNat (number + 1) := UInt64.ofNat_add number 1 |>.symm
    have hcount : number + 1 + events.length = number + (events.length + 1) := by omega
    obtain ⟨sent, hsent, hreads⟩ := ih (Nat.lt_add_one_of_lt hpos) (by omega)
    refine ⟨Sequencer.packet ⟨UInt64.ofNat number⟩ event (memory.val.drop 28) :: sent, ?_, ?_⟩
    · rw [Sequencer.sequenceAll_cons]
      simp only [hnext]
      rw [hsent, List.length_cons, hcount]
      rfl
    · intro slots chunks rest hslots harrived hflatten
      rw [List.map_cons, List.flatten_cons, Sequencer.message_eq hnumber, List.append_assoc,
        List.append_assoc] at hflatten
      obtain ⟨slot, slots, rfl⟩ := List.exists_cons_of_length_eq_add_one hslots
      obtain ⟨first, chunks', harrived', hrest', hheader, hevent, hloop⟩ :=
        receivePackets_cons after harrived slot.property hnumber hflatten
      obtain ⟨received, chunks'', harrived'', hrest'', hheaders, hevents, hall⟩ :=
        hreads slots chunks' rest (Nat.succ.inj hslots) harrived' hrest'
      refine ⟨first :: received, chunks'', harrived'', hrest'', ?_, ?_, ?_⟩
      · rw [List.map_cons, List.map_cons, hheader, hheaders]
        rfl
      · rw [List.map_cons, List.map_cons, hevent, hevents]
      · intro more
        rw [List.map_cons, List.cons_append, hloop, hnext, hall, List.length_cons, hcount, Option.map_map]
        rfl

end RetransmitListener

/-- The client has read the messages back: their headers, and from their payloads the events.
It stopped where it should, with nothing left to read. -/
def ReadBack (events : List (MarketEvent × MessageMemory)) (sent : List EncodedMessage)
    (failure : Option ClientFailure)
    (result : Option (List EncodedMessage × Option ClientFailure × List (List UInt8))) : Prop :=
  ∃ received, result = some (received, failure, []) ∧
    received.map EncodedMessage.header = sent.map EncodedMessage.header ∧
    received.map (fun m => m.getPayloadRef.bind BinaryProtocol.decode) = events.map (some ·.1)

/-- The stream of the messages of the events, alone or with an error header behind them, is
read back, however it is cut into chunks. -/
def StreamReadBack (events : List (MarketEvent × MessageMemory)) : Prop :=
  ∃ sent s, Sequencer.init.sequenceAll events = some (sent, s) ∧
    (∀ after (slots : List MessageSlot) chunks, slots.length = events.length → Arrived chunks →
      chunks.flatten = (sent.map EncodedMessage.message).flatten →
      ReadBack events sent none
        (RetransmitListener.receivePackets after firstSequenceId (slots.map Subtype.val) chunks)) ∧
    ∀ after (slots : List MessageSlot) chunks code memory, slots.length = events.length + 1 → Arrived chunks →
      (∃ error, errorMessage code memory = some error ∧
        chunks.flatten = (sent.map EncodedMessage.message).flatten ++ error.message) →
      ReadBack events sent (some (.server code))
        (RetransmitListener.receivePackets after firstSequenceId (slots.map Subtype.val) chunks)

/-- An error message is its header. -/
theorem errorMessage_message {code : UInt16} {memory : MessageMemory} {error : EncodedMessage}
    (h : errorMessage code memory = some error) : error.message = (⟨0, code⟩ : MessageHeader).serialize := by
  have hempty : ([] : List UInt8).length ≤ maxMessageBytes := Nat.zero_le _
  rw [errorMessage, EncodedMessage.new, if_pos hempty, Option.map_some] at h
  cases h
  show (overwrite _ 0 (MessageHeader.serialize ⟨0, code⟩)).take MessageHeader.packedWireSize = _
  rw [overwrite, List.take_zero, List.nil_append]
  exact List.take_left' (MessageHeader.length_serialize _)

theorem Arrived.eq_nil {chunks : List (List UInt8)} (h : Arrived chunks) (hflatten : chunks.flatten = []) :
    chunks = [] := by
  cases chunks with
  | nil => rfl
  | cons chunk chunks =>
    rw [List.flatten_cons] at hflatten
    exact absurd (List.append_eq_nil_iff.mp hflatten).1 (h chunk List.mem_cons_self)

/-- As long as the sequence number does not come round to zero, every stream is read back. -/
theorem streamReadBack {events : List (MarketEvent × MessageMemory)} (hbound : events.length < 2 ^ 64) :
    StreamReadBack events := by
  obtain ⟨sent, hsent, -⟩ := RetransmitListener.receivePackets_sequenced .closed events
    Nat.one_pos (by omega)
  refine ⟨sent, _, hsent, ?_, ?_⟩
  · intro after slots chunks hslots harrived hflatten
    obtain ⟨sent', hsent', hreads⟩ := RetransmitListener.receivePackets_sequenced after events
      Nat.one_pos (by omega)
    rw [hsent] at hsent'
    cases hsent'
    obtain ⟨received, chunks', harrived', hrest, hheaders, hevents, hloop⟩ :=
      hreads slots chunks [] hslots harrived (by rw [List.append_nil]; exact hflatten)
    refine ⟨received, ?_, hheaders, hevents⟩
    have hend := hloop []
    rw [List.append_nil, RetransmitListener.receivePackets, harrived'.eq_nil hrest, Option.map_some,
      List.append_nil] at hend
    exact hend
  · intro after slots chunks code memory hslots harrived herror
    obtain ⟨error, herror, hflatten⟩ := herror
    obtain ⟨sent', hsent', hreads⟩ := RetransmitListener.receivePackets_sequenced after events
      Nat.one_pos (by omega)
    rw [hsent] at hsent'
    cases hsent'
    have hsplit : slots = slots.take events.length ++ slots.drop events.length := (List.take_append_drop _ _).symm
    have hfront : (slots.take events.length).length = events.length :=
      List.length_take_of_le (by omega)
    obtain ⟨slot, hslot⟩ : ∃ slot, slots.drop events.length = [slot] :=
      List.length_eq_one_iff.mp (by rw [List.length_drop]; omega)
    rw [errorMessage_message herror] at hflatten
    obtain ⟨received, chunks', harrived', hrest, hheaders, hevents, hloop⟩ :=
      hreads (slots.take events.length) chunks _ hfront harrived hflatten
    obtain ⟨chunks'', hhead, harrived'', hrest''⟩ := RetransmitListener.receiveAndDecodeHeader_error after
      harrived' slot.property (hrest.trans (List.append_nil _).symm) rfl
    refine ⟨received, ?_, hheaders, hevents⟩
    have hend := hloop [slot.val]
    rw [RetransmitListener.receivePackets, hhead, harrived''.eq_nil hrest'', Option.map_some,
      List.append_nil] at hend
    rw [hsplit, hslot, List.map_append]
    exact hend

/-- The wire formats are read back: streams of fewer than `2 ^ 64` events, single events as
raw bytes, and requests. -/
theorem wire_formats_read_back :
    (∀ events : List (MarketEvent × MessageMemory), events.length < 2 ^ 64 → StreamReadBack events) ∧
    (∀ buffer : List UInt8, buffer.length = BinaryProtocol.bufferSize →
      ∃ raw, BinaryProtocol.decodeRaw buffer = some raw ∧ BinaryProtocol.encodeRaw raw = buffer) ∧
    (∀ raw, (BinaryProtocol.encodeRaw raw).length = BinaryProtocol.bufferSize ∧
      BinaryProtocol.decodeRaw (BinaryProtocol.encodeRaw raw) = some raw) ∧
    (∀ wire : List UInt8, wire.length = RetransmitRequest.packedSize →
      ∃ request, RetransmitRequest.parse wire = some request ∧ request.serialize = wire) ∧
    ∀ request : RetransmitRequest, request.serialize.length = RetransmitRequest.packedSize ∧
      RetransmitRequest.parse request.serialize = some request := by
  refine ⟨fun events hbound => streamReadBack hbound, ?_, ?_, ?_, ?_⟩
  · intro buffer hlength
    obtain ⟨raw, hraw⟩ : ∃ raw, BinaryProtocol.decodeRaw buffer = some raw := ⟨_, if_pos hlength⟩
    exact ⟨raw, hraw, BinaryProtocol.encodeRaw_of_decodeRaw hraw⟩
  · intro raw
    exact ⟨BinaryProtocol.length_encodeRaw raw, BinaryProtocol.decodeRaw_encodeRaw raw⟩
  · intro wire hlength
    obtain ⟨request, hrequest⟩ : ∃ request, RetransmitRequest.parse wire = some request := ⟨_, if_pos hlength⟩
    exact ⟨request, hrequest, RetransmitRequest.serialize_of_parse hrequest⟩
  · intro request
    exact ⟨request.length_serialize, request.parse_serialize⟩

def quoteEvent : MarketEvent := ⟨⟨7, -3, 5, .sell⟩, .update⟩

theorem wire_formats_read_back_quoteEvent :
    StreamReadBack [(quoteEvent, blankMemory)] ∧
    (∃ raw, BinaryProtocol.decodeRaw (List.replicate 18 255) = some raw ∧
      BinaryProtocol.encodeRaw raw = List.replicate 18 255) ∧
    ∃ request, RetransmitRequest.parse (List.replicate 16 255) = some request ∧
      request.serialize = List.replicate 16 255 := by
  obtain ⟨hstream, hbuffer, -, hwire, -⟩ := wire_formats_read_back
  exact ⟨hstream _ (by decide), hbuffer _ (by decide), hwire _ (by decide)⟩

theorem Sequencer.sequenceAll_concat {s s' : Sequencer} {events : List (MarketEvent × MessageMemory)}
    {sent : List EncodedMessage} (h : s.sequenceAll events = some (sent, s')) (event : MarketEvent)
    (memory : MessageMemory) :
    s.sequenceAll (events ++ [(event, memory)]) =
      some (sent ++ [s'.packet event (memory.val.drop 28)], ⟨s'.sequencerCounter + 1⟩) := by
  induction events generalizing s sent with
  | nil =>
    cases h
    rw [List.nil_append, sequenceAll_cons]
    rfl
  | cons head events ih =>
    obtain ⟨first, room⟩ := head
    rw [sequenceAll_cons] at h
    obtain ⟨⟨sent', s''⟩, hrest, heq⟩ := Option.map_eq_some_iff.mp h
    cases heq
    rw [List.cons_append, sequenceAll_cons, ih hrest]
    rfl

/-- The event that gets the number zero goes out as an error header. -/
theorem not_streamReadBack {n : Nat} (hn : n + 1 = 2 ^ 64) :
    ¬StreamReadBack (List.replicate (n + 1) (quoteEvent, blankMemory)) := by
  rintro ⟨sent, s, hsent, hnone, -⟩
  have hlength : (List.replicate n (quoteEvent, blankMemory)).length = n := List.length_replicate
  obtain ⟨sent', hsent', -⟩ := RetransmitListener.receivePackets_sequenced .closed
    (List.replicate n (quoteEvent, blankMemory)) Nat.one_pos (by omega)
  obtain ⟨sent'', s'', hsent'', -, hserver⟩ :=
    streamReadBack (show (List.replicate n (quoteEvent, blankMemory)).length < 2 ^ 64 by omega)
  have hsame : sent'' = sent' := by
    have heq := hsent''.symm.trans hsent'
    cases heq
    rfl
  have hzero : UInt64.ofNat (1 + (List.replicate n (quoteEvent, blankMemory)).length) = 0 := by
    rw [hlength, Nat.add_comm, hn]
    rfl
  rw [hzero] at hsent'
  have hall := Sequencer.sequenceAll_concat hsent' quoteEvent blankMemory
  rw [← List.replicate_succ'] at hall
  rw [show Sequencer.init = ⟨UInt64.ofNat 1⟩ from rfl, hall] at hsent
  cases hsent
  rw [hsame] at hserver
  let slot : MessageSlot := ⟨⟨⟨0, 0⟩, blankMemory.val⟩, blankMemory.property⟩
  let bytes := (sent'.map EncodedMessage.message).flatten ++ (⟨0, 18⟩ : MessageHeader).serialize
  have hlast : (Sequencer.packet ⟨0⟩ quoteEvent (blankMemory.val.drop 28)).message =
      (⟨0, 18⟩ : MessageHeader).serialize := by decide +kernel
  have harrived : Arrived [bytes] := by
    intro chunk hchunk
    rw [List.mem_singleton.mp hchunk]
    exact fun hnil => by cases (List.append_eq_nil_iff.mp hnil).2
  obtain ⟨error, herror⟩ : ∃ error, errorMessage 18 blankMemory = some error := ⟨_, rfl⟩
  obtain ⟨received, hreceived, -⟩ := hnone .closed (List.replicate (n + 1) slot) [bytes]
    (by rw [List.length_replicate, List.length_replicate]) harrived
    (by rw [List.map_append, List.map_singleton, hlast, List.flatten_append, List.flatten_singleton,
      List.flatten_singleton])
  obtain ⟨received', hreceived', -⟩ := hserver .closed (List.replicate (n + 1) slot) [bytes] 18 blankMemory
    (by rw [List.length_replicate, hlength]) harrived
    ⟨error, herror, by rw [errorMessage_message herror, List.flatten_singleton]⟩
  rw [hreceived] at hreceived'
  cases hreceived'

/-- A stream of `2 ^ 64` events is not read back. -/
theorem wire_formats_not_read_back : ¬∀ events, StreamReadBack events :=
  fun h => not_streamReadBack (show 18446744073709551615 + 1 = 2 ^ 64 by decide)
    (h (List.replicate (18446744073709551615 + 1) (quoteEvent, blankMemory)))

end HftPipeline
