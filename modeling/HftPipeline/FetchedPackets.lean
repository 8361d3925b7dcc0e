import HftPipeline.Retransmission

/-!
# Fetched packets

Both ends of a connection for retransmission. Of whatever arrives of the bytes that the server
handed to the kernel, the client reads the packets that arrived whole, and they are those that
it asked for, in order. Where the stream ends within a packet the client fails.
-/
namespace HftPipeline

/-- Why the client gives up when the stream ends. -/
def RecvEnd.failure : RecvEnd → ClientFailure
  | .closed => .closed
  | .failed _ => .receive

namespace RetransmitListener

end RetransmitListener

/-- The bytes of a packet on the wire. -/
def packetSize : Nat := MessageHeader.packedWireSize + BinaryProtocol.bufferSize

/-- The packet of an event, with its number. -/
def packetWire (number : Nat) (event : MarketEvent) : List UInt8 :=
  (Sequencer.nextHeader ⟨UInt64.ofNat number⟩).serialize ++ BinaryProtocol.encode event

@[simp] theorem length_packetWire (number : Nat) (event : MarketEvent) :
    (packetWire number event).length = packetSize := by
  rw [packetWire, List.length_append, MessageHeader.length_serialize, BinaryProtocol.length_encode, packetSize]

/-- The messages have these numbers and carry the events of these numbers. -/
structure Packets (events : List MarketEvent) (numbers : List Nat) (messages : List EncodedMessage) : Prop where
  numbered : messages.map (fun m => m.header.sequenceNumber.toNat) = numbers
  carries : messages.map (fun m => m.getPayloadRef.bind BinaryProtocol.decode) = numbers.map fun n => events[n - 1]?

/-- `bytes` gives the packets of the events, from number `first` on. -/
def Carried (events : List MarketEvent) (bytes : Nat → List UInt8) (first count : Nat) : Prop :=
  ∀ n, first ≤ n → n < first + count → ∃ event, events[n - 1]? = some event ∧ bytes n = packetWire n event

variable {events : List MarketEvent} {bytes : Nat → List UInt8} {first count : Nat} {chunks : List (List UInt8)}
  {slot : EncodedMessage} {header : MessageHeader}

theorem Carried.tail (h : Carried events bytes first (count + 1)) : Carried events bytes (first + 1) count := by
  intro n hlow hhigh
  exact h n (by omega) (by omega)

theorem stretch_succ (bytes : Nat → List UInt8) (first count : Nat) :
    stretch bytes first (count + 1) = bytes first ++ stretch bytes (first + 1) count := by
  rw [stretch, List.range'_succ, List.flatMap_cons, stretch]

theorem Carried.length (h : Carried events bytes first count) :
    (stretch bytes first count).length = packetSize * count := by
  induction count generalizing first with
  | zero => rfl
  | succ count ih =>
    obtain ⟨event, -, hbytes⟩ := h first (Nat.le_refl _) (by omega)
    rw [stretch_succ, List.length_append, hbytes, length_packetWire, ih h.tail, Nat.mul_succ, Nat.add_comm]

theorem Packets.nil : Packets events [] [] := ⟨rfl, rfl⟩

theorem Packets.append {numbers more : List Nat} {messages later : List EncodedMessage}
    (h : Packets events numbers messages) (hmore : Packets events more later) :
    Packets events (numbers ++ more) (messages ++ later) := by
  refine ⟨?_, ?_⟩
  · rw [List.map_append, h.numbered, hmore.numbered]
  · rw [List.map_append, List.map_append, h.carries, hmore.carries]

theorem Packets.cons {number : Nat} {numbers : List Nat} {message : EncodedMessage} {messages : List EncodedMessage}
    (h : Packets events numbers messages) (hnumber : message.header.sequenceNumber.toNat = number)
    (hevent : message.getPayloadRef.bind BinaryProtocol.decode = events[number - 1]?) :
    Packets events (number :: numbers) (message :: messages) := by
  refine ⟨?_, ?_⟩
  · rw [List.map_cons, hnumber, h.numbered]
  · rw [List.map_cons, List.map_cons, hevent, h.carries]

/-! ## Where the stream ends -/

namespace RetransmitListener

end RetransmitListener

/-! ## What the server caches -/

end HftPipeline
