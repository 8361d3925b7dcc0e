import HftPipeline.Order
import HftPipeline.Lib.NetworkOrder

/-!
# Messages on the wire

`BinaryProtocol`, `EncodedMessage` and `Sequencer`. Buffers are lists of bytes and
a copy to an offset replaces the bytes there. A failed assertion, a copy outside
the buffer and a byte that is no enumerator are `none`.
-/
namespace HftPipeline

open NetworkOrder

/-- The `size` bytes at `offset`. -/
def field (buffer : List UInt8) (offset size : Nat) : List UInt8 := (buffer.drop offset).take size

/-- `memcpy` into a buffer. -/
def overwrite (buffer : List UInt8) (offset : Nat) (bytes : List UInt8) : List UInt8 :=
  buffer.take offset ++ bytes ++ buffer.drop (offset + bytes.length)

def MarketEvent.Type.toByte : MarketEvent.Type → UInt8
  | .add => 0
  | .cancel => 1
  | .trade => 2
  | .update => 3

def MarketEvent.Type.ofByte? (b : UInt8) : Option MarketEvent.Type :=
  if b = 0 then some .add
  else if b = 1 then some .cancel
  else if b = 2 then some .trade
  else if b = 3 then some .update
  else none

def Side.toByte : Side → UInt8
  | .buy => 0
  | .sell => 1

def Side.ofByte? (b : UInt8) : Option Side :=
  if b = 0 then some .buy else if b = 1 then some .sell else none

namespace BinaryProtocol

/-- `BUFFER_SIZE`: a type, an id, a price, a quantity and a side. -/
def bufferSize : Nat := 1 + 8 + 4 + 4 + 1

def encode (event : MarketEvent) : List UInt8 :=
  [event.type.toByte] ++ toNetwork 8 event.order.orderId.toNat ++
    toNetwork 4 event.order.price.toUInt32.toNat ++ toNetwork 4 event.order.quantity.toNat ++
    [event.order.side.toByte]

def decode (buffer : List UInt8) : Option MarketEvent :=
  if buffer.length = bufferSize then do
    let type ← MarketEvent.Type.ofByte? (UInt8.ofNat (toHost (field buffer 0 1)))
    let side ← Side.ofByte? (UInt8.ofNat (toHost (field buffer 17 1)))
    let orderId := UInt64.ofNat (toHost (field buffer 1 8))
    let price := (UInt32.ofNat (toHost (field buffer 9 4))).toInt32
    let quantity := UInt32.ofNat (toHost (field buffer 13 4))
    return ⟨⟨orderId, price, quantity, side⟩, type⟩
  else none

end BinaryProtocol

/-- A `MarketEvent` as `BinaryProtocol` copies it: the type and the side are any byte. -/
structure RawEvent where
  type : UInt8
  orderId : UInt64
  price : Int32
  quantity : UInt32
  side : UInt8
  deriving DecidableEq, Repr

def MarketEvent.raw (event : MarketEvent) : RawEvent :=
  ⟨event.type.toByte, event.order.orderId, event.order.price, event.order.quantity, event.order.side.toByte⟩

/-- The event, if both bytes are enumerators. -/
def RawEvent.event? (raw : RawEvent) : Option MarketEvent := do
  let type ← MarketEvent.Type.ofByte? raw.type
  let side ← Side.ofByte? raw.side
  return ⟨⟨raw.orderId, raw.price, raw.quantity, side⟩, type⟩

namespace BinaryProtocol

def encodeRaw (raw : RawEvent) : List UInt8 :=
  [raw.type] ++ toNetwork 8 raw.orderId.toNat ++ toNetwork 4 raw.price.toUInt32.toNat ++
    toNetwork 4 raw.quantity.toNat ++ [raw.side]

def decodeRaw (buffer : List UInt8) : Option RawEvent :=
  if buffer.length = bufferSize then
    some ⟨UInt8.ofNat (toHost (field buffer 0 1)), UInt64.ofNat (toHost (field buffer 1 8)),
      (UInt32.ofNat (toHost (field buffer 9 4))).toInt32, UInt32.ofNat (toHost (field buffer 13 4)),
      UInt8.ofNat (toHost (field buffer 17 1))⟩
  else none

end BinaryProtocol

/-- `config::MAX_MESSAGE_BYTES`. -/
def maxMessageBytes : Nat := 2 ^ 5

/-- `config::FIRST_SEQUENCE_ID`. -/
def firstSequenceId : UInt64 := 1

structure MessageHeader where
  sequenceNumber : UInt64
  payloadLength : UInt16
  deriving DecidableEq, Repr

namespace MessageHeader

/-- `PACKED_WIRE_SIZE`. -/
def packedWireSize : Nat := 8 + 2

/-- A sequence number of zero marks an error message, whose length field is the error code. -/
def wireSize (header : MessageHeader) : Nat :=
  if header.sequenceNumber = 0 then packedWireSize else packedWireSize + header.payloadLength.toNat

def serialize (header : MessageHeader) : List UInt8 :=
  toNetwork 8 header.sequenceNumber.toNat ++ toNetwork 2 header.payloadLength.toNat

end MessageHeader

structure EncodedMessage where
  header : MessageHeader
  buffer : List UInt8
  deriving DecidableEq, Repr

namespace EncodedMessage

/-- `MAX_WIRE_SIZE`. -/
def maxWireSize : Nat := maxMessageBytes + MessageHeader.packedWireSize

/-- The constructor; the bytes it does not write are left as they were. -/
def new (header : MessageHeader) (payload : List UInt8) (buffer : List UInt8) : Option EncodedMessage :=
  if payload.length ≤ maxMessageBytes then
    some ⟨header, overwrite buffer MessageHeader.packedWireSize payload⟩
  else none

def payload (m : EncodedMessage) : List UInt8 :=
  if m.header.sequenceNumber = 0 then []
  else field m.buffer MessageHeader.packedWireSize m.header.payloadLength.toNat

def getPayloadRef (m : EncodedMessage) : Option (List UInt8) :=
  if m.header.payloadLength.toNat ≤ maxMessageBytes then
    some (field m.buffer MessageHeader.packedWireSize m.header.payloadLength.toNat)
  else none

def message (m : EncodedMessage) : List UInt8 := m.buffer.take m.header.wireSize

def serialize (m : EncodedMessage) : EncodedMessage :=
  { m with buffer := overwrite m.buffer 0 m.header.serialize }

def decodeHeaderFromBuffer (m : EncodedMessage) : EncodedMessage :=
  { m with header :=
    ⟨UInt64.ofNat (toHost (field m.buffer 0 8)), UInt16.ofNat (toHost (field m.buffer 8 2))⟩ }

end EncodedMessage

/-- What a message is built or received in. -/
abbrev MessageMemory := { buffer : List UInt8 // buffer.length = EncodedMessage.maxWireSize }

def blankMemory : MessageMemory := ⟨List.replicate EncodedMessage.maxWireSize 0, List.length_replicate⟩

/-- `Sequencer<BinaryProtocol>`. -/
structure Sequencer where
  sequencerCounter : UInt64
  deriving DecidableEq, Repr

namespace Sequencer

def init : Sequencer := ⟨firstSequenceId⟩

/-- `buffer` is what the memory of the new message held before. -/
def generateMessage (s : Sequencer) (event : MarketEvent) (buffer : List UInt8) :
    Option (EncodedMessage × Sequencer) := do
  let payload := BinaryProtocol.encode event
  let header : MessageHeader := ⟨s.sequencerCounter, UInt16.ofNat payload.length⟩
  let message ← EncodedMessage.new header payload buffer
  return (message.serialize, ⟨s.sequencerCounter + 1⟩)

/-- The messages for a list of events, each built in memory of its own. -/
def generateAll (s : Sequencer) : List (MarketEvent × List UInt8) → Option (List EncodedMessage × Sequencer)
  | [] => some ([], s)
  | (event, buffer) :: events => do
    let (message, s) ← s.generateMessage event buffer
    let (messages, s) ← s.generateAll events
    return (message :: messages, s)

end Sequencer

/-! ## Round trips -/

@[simp] theorem MarketEvent.Type.ofByte_toByte (t : MarketEvent.Type) :
    MarketEvent.Type.ofByte? t.toByte = some t := by
  cases t <;> rfl

@[simp] theorem Side.ofByte_toByte (side : Side) : Side.ofByte? side.toByte = some side := by
  cases side <;> rfl

theorem field_append (front mid back : List UInt8) :
    field (front ++ (mid ++ back)) front.length mid.length = mid := by
  rw [field, List.drop_left, List.take_left]

theorem field_add (buffer : List UInt8) (offset first second : Nat) :
    field buffer offset first ++ field buffer (offset + first) second = field buffer offset (first + second) := by
  rw [field, field, field, ← List.drop_drop, ← List.take_add]

theorem toHost_singleton (b : UInt8) : UInt8.ofNat (toHost [b]) = b := by
  simp [toHost]

namespace BinaryProtocol

theorem length_encodeRaw (raw : RawEvent) : (encodeRaw raw).length = bufferSize := by
  simp [encodeRaw, bufferSize]

/-- Every field is read back from where it was written. -/
theorem decodeRaw_encodeRaw (raw : RawEvent) : decodeRaw (encodeRaw raw) = some raw := by
  have htype : field (encodeRaw raw) 0 1 = [raw.type] := by
    have := field_append [] [raw.type] (toNetwork 8 raw.orderId.toNat ++
      toNetwork 4 raw.price.toUInt32.toNat ++ toNetwork 4 raw.quantity.toNat ++ [raw.side])
    simpa [encodeRaw] using this
  have hid : field (encodeRaw raw) 1 8 = toNetwork 8 raw.orderId.toNat := by
    have := field_append [raw.type] (toNetwork 8 raw.orderId.toNat)
      (toNetwork 4 raw.price.toUInt32.toNat ++ toNetwork 4 raw.quantity.toNat ++ [raw.side])
    simpa [encodeRaw] using this
  have hprice : field (encodeRaw raw) 9 4 = toNetwork 4 raw.price.toUInt32.toNat := by
    have := field_append ([raw.type] ++ toNetwork 8 raw.orderId.toNat)
      (toNetwork 4 raw.price.toUInt32.toNat) (toNetwork 4 raw.quantity.toNat ++ [raw.side])
    simpa [encodeRaw] using this
  have hquantity : field (encodeRaw raw) 13 4 = toNetwork 4 raw.quantity.toNat := by
    have := field_append ([raw.type] ++ toNetwork 8 raw.orderId.toNat ++
      toNetwork 4 raw.price.toUInt32.toNat) (toNetwork 4 raw.quantity.toNat) [raw.side]
    simpa [encodeRaw] using this
  have hside : field (encodeRaw raw) 17 1 = [raw.side] := by
    have := field_append ([raw.type] ++ toNetwork 8 raw.orderId.toNat ++
      toNetwork 4 raw.price.toUInt32.toNat ++ toNetwork 4 raw.quantity.toNat) [raw.side] []
    simpa [encodeRaw] using this
  simp only [decodeRaw, length_encodeRaw, ↓reduceIte, htype, hid, hprice, hquantity, hside, toHost_singleton,
    toHost_uInt64, toHost_uInt32, Int32.toInt32_toUInt32]

/-- A buffer of one event is its five fields. -/
theorem fields_eq {buffer : List UInt8} (h : buffer.length = bufferSize) :
    field buffer 0 1 ++ field buffer 1 8 ++ field buffer 9 4 ++ field buffer 13 4 ++ field buffer 17 1 =
      buffer := by
  rw [field_add buffer 0 1 8, field_add buffer 0 9 4, field_add buffer 0 13 4, field_add buffer 0 17 1, field,
    List.drop_zero]
  exact List.take_of_length_le (Nat.le_of_eq h)

theorem length_field {buffer : List UInt8} {offset size : Nat} (h : offset + size ≤ buffer.length) :
    (field buffer offset size).length = size := by
  rw [field, List.length_take, List.length_drop]
  omega

theorem encodeRaw_of_decodeRaw {buffer : List UInt8} {raw : RawEvent} (h : decodeRaw buffer = some raw) :
    encodeRaw raw = buffer := by
  rw [decodeRaw] at h
  split at h
  · rename_i hlength
    have hsize : buffer.length = 18 := hlength
    have h0 := length_field (show 0 + 1 ≤ buffer.length by omega)
    have h1 := length_field (show 1 + 8 ≤ buffer.length by omega)
    have h9 := length_field (show 9 + 4 ≤ buffer.length by omega)
    have h13 := length_field (show 13 + 4 ≤ buffer.length by omega)
    have h17 := length_field (show 17 + 1 ≤ buffer.length by omega)
    have hbyte : ∀ bytes : List UInt8, bytes.length = 1 → [UInt8.ofNat (toHost bytes)] = bytes := by
      intro bytes hbytes
      obtain ⟨b, rfl⟩ := List.length_eq_one_iff.mp hbytes
      rw [toHost_singleton]
    have hid : (UInt64.ofNat (toHost (field buffer 1 8))).toNat = toHost (field buffer 1 8) :=
      UInt64.toNat_ofNat_of_lt (toHost_lt_of_length h1)
    have hprice : (UInt32.ofNat (toHost (field buffer 9 4))).toNat = toHost (field buffer 9 4) :=
      UInt32.toNat_ofNat_of_lt (toHost_lt_of_length h9)
    have hquantity : (UInt32.ofNat (toHost (field buffer 13 4))).toNat = toHost (field buffer 13 4) :=
      UInt32.toNat_ofNat_of_lt (toHost_lt_of_length h13)
    cases h
    simp only [encodeRaw, UInt32.toUInt32_toInt32, hid, hprice, hquantity, hbyte _ h0, hbyte _ h17,
      toNetwork_of_length h1, toNetwork_of_length h9, toNetwork_of_length h13]
    exact fields_eq hlength
  · cases h

/-- Typed events are encoded as their raw bytes. -/
theorem encode_eq_encodeRaw (event : MarketEvent) : encode event = encodeRaw event.raw := rfl

theorem decode_eq_decodeRaw (buffer : List UInt8) : decode buffer = (decodeRaw buffer).bind RawEvent.event? := by
  rw [decode, decodeRaw]
  split <;> rfl

@[simp] theorem length_encode (event : MarketEvent) : (encode event).length = bufferSize := by
  simp [encode, bufferSize]

theorem decode_encode (event : MarketEvent) : decode (encode event) = some event := by
  rw [encode_eq_encodeRaw, decode_eq_decodeRaw, decodeRaw_encodeRaw, Option.bind_some, RawEvent.event?,
    MarketEvent.raw, MarketEvent.Type.ofByte_toByte, Side.ofByte_toByte]
  rfl

end BinaryProtocol

@[simp] theorem MessageHeader.length_serialize (header : MessageHeader) :
    header.serialize.length = MessageHeader.packedWireSize := by
  simp [MessageHeader.serialize, MessageHeader.packedWireSize]

namespace Sequencer

/-- The header of the next message. -/
def nextHeader (s : Sequencer) : MessageHeader :=
  ⟨s.sequencerCounter, UInt16.ofNat BinaryProtocol.bufferSize⟩

/-- A new message holds its header, the encoded event and then the old memory. -/
theorem generateMessage_eq (s : Sequencer) (event : MarketEvent) {buffer : List UInt8}
    (hbuffer : buffer.length = EncodedMessage.maxWireSize) :
    s.generateMessage event buffer = some
      (⟨s.nextHeader, s.nextHeader.serialize ++ (BinaryProtocol.encode event ++ buffer.drop 28)⟩,
        ⟨s.sequencerCounter + 1⟩) := by
  have hlen : (buffer.take MessageHeader.packedWireSize).length = MessageHeader.packedWireSize := by
    simp [hbuffer, EncodedMessage.maxWireSize, MessageHeader.packedWireSize]
  have hsize : MessageHeader.packedWireSize + BinaryProtocol.bufferSize = 28 := rfl
  have hdrop : (buffer.take MessageHeader.packedWireSize ++ BinaryProtocol.encode event ++
      buffer.drop 28).drop MessageHeader.packedWireSize = BinaryProtocol.encode event ++ buffer.drop 28 := by
    rw [List.append_assoc]
    exact List.drop_left' hlen
  have hnew : EncodedMessage.new s.nextHeader (BinaryProtocol.encode event) buffer = some ⟨s.nextHeader,
      buffer.take MessageHeader.packedWireSize ++ BinaryProtocol.encode event ++ buffer.drop 28⟩ := by
    rw [EncodedMessage.new, if_pos (by rw [BinaryProtocol.length_encode]; decide), overwrite,
      BinaryProtocol.length_encode, hsize]
  simp only [generateMessage, BinaryProtocol.length_encode]
  rw [← nextHeader, hnew]
  simp only [Option.bind_eq_bind, Option.bind_some, EncodedMessage.serialize, overwrite, List.take_zero,
    List.nil_append, Nat.zero_add, MessageHeader.length_serialize, hdrop]
  rfl

end Sequencer

/-- A buffer that starts with a header decodes to it. -/
theorem decodeHeaderFromBuffer_eq (old header : MessageHeader) (rest : List UInt8) :
    EncodedMessage.decodeHeaderFromBuffer ⟨old, header.serialize ++ rest⟩ =
      ⟨header, header.serialize ++ rest⟩ := by
  have hnumber : field (header.serialize ++ rest) 0 8 = toNetwork 8 header.sequenceNumber.toNat := by
    have := field_append [] (toNetwork 8 header.sequenceNumber.toNat)
      (toNetwork 2 header.payloadLength.toNat ++ rest)
    simpa [MessageHeader.serialize] using this
  have hlength : field (header.serialize ++ rest) 8 2 = toNetwork 2 header.payloadLength.toNat := by
    have := field_append (toNetwork 8 header.sequenceNumber.toNat)
      (toNetwork 2 header.payloadLength.toNat) rest
    simpa [MessageHeader.serialize] using this
  rw [EncodedMessage.decodeHeaderFromBuffer]
  simp only [hnumber, hlength, toHost_uInt64, toHost_uInt16]

/-- The payload is read back whole from a message with its header in front. -/
theorem getPayloadRef_eq (header : MessageHeader) (event : MarketEvent) (rest : List UInt8)
    (hlen : header.payloadLength = UInt16.ofNat BinaryProtocol.bufferSize) :
    EncodedMessage.getPayloadRef ⟨header, header.serialize ++ (BinaryProtocol.encode event ++ rest)⟩ =
      some (BinaryProtocol.encode event) := by
  have hfield := field_append header.serialize (BinaryProtocol.encode event) rest
  rw [MessageHeader.length_serialize, BinaryProtocol.length_encode] at hfield
  have hsize : header.payloadLength.toNat = BinaryProtocol.bufferSize := by rw [hlen]; rfl
  simp only [EncodedMessage.getPayloadRef, hsize]
  rw [if_pos (by decide), hfield]

end HftPipeline
