import HftPipeline.CircularCache
import HftPipeline.MarketDataHandler

/-!
# Cached before broadcast

`ExchangeSimulator::run` puts every message into the retransmit cache before it
broadcasts it. The handler only asks for packets before one it has received, so
the server only looks up packets whose put has completed.
-/
namespace HftPipeline

open CircularCache

/-- The cache has `config::RETRANSMIT_CACHE_SIZE` slots, two to this power. -/
def retransmitCacheBits : Nat := 15

/-- `ExchangeSimulator::run`: waiting for an event, with a message to cache, within
`put_item`, or with a cached message to broadcast. -/
inductive SimulatorPc where
  | waiting
  | caching (message : EncodedMessage)
  | putting (message : EncodedMessage)
  | broadcasting (message : EncodedMessage)
  deriving DecidableEq

/-- The simulator, the cache with the lookups of the server, what was broadcast, and the
gap detector of the handler with the requests it has made. -/
structure Exchange (R : Type) where
  sequencer : Sequencer
  simulator : SimulatorPc
  cache : CacheMachine R EncodedMessage retransmitCacheBits
  broadcast : List EncodedMessage
  detector : GapDetector
  requested : List RetransmitRequest

/-- An event is sequenced, the simulator goes on, the handler receives one of the broadcast
packets, the server begins to look up a packet, or it goes on with a lookup. -/
inductive ExchangeTurn (R : Type) where
  | sequence (event : MarketEvent) (memory : MessageMemory)
  | simulator
  | receive (packet : Nat) (slot : EncodedMessage)
  | lookup (r : R) (packet : UInt64)
  | server (r : R)

namespace Exchange

variable {R : Type} [DecidableEq R]

def init (memory : Nat → EncodedMessage) : Exchange R :=
  ⟨.init, .waiting, .init memory, [], .init, []⟩

def sequenceEvent (x : Exchange R) (event : MarketEvent) (memory : MessageMemory) : Exchange R :=
  match x.simulator, x.sequencer.generateMessage event memory with
  | .waiting, some (message, sequencer) => { x with sequencer := sequencer, simulator := .caching message }
  | _, _ => x

def simulatorStep (x : Exchange R) : Exchange R :=
  match x.simulator with
  | .waiting => x
  | .caching message => { x with cache := x.cache.step (.put message), simulator := .putting message }
  | .putting message =>
    let cache := x.cache.step .write
    { x with cache := cache, simulator := if cache.writer.busy then .putting message else .broadcasting message }
  | .broadcasting message => { x with broadcast := x.broadcast ++ [message], simulator := .waiting }

/-- The handler reads the datagram into a slot of its ring and runs `has_gap` on its header. -/
def receive (x : Exchange R) (packet : Nat) (slot : EncodedMessage) : Exchange R :=
  match x.broadcast[packet]? with
  | none => x
  | some message =>
    let received := (slot.receiveDatagram message.message).decodeHeaderFromBuffer
    let (request, detector) := x.detector.hasGap received.header
    { x with detector := detector, requested := x.requested ++ request.toList }

/-- The handler has asked for the packet. -/
def Requested (x : Exchange R) (packet : UInt64) : Prop :=
  ∃ request ∈ x.requested, request.firstPacket ≤ packet ∧ packet < request.lastPacket

instance (x : Exchange R) (packet : UInt64) : Decidable (x.Requested packet) :=
  inferInstanceAs (Decidable (∃ request ∈ x.requested, _))

def step (x : Exchange R) : ExchangeTurn R → Exchange R
  | .sequence event memory => x.sequenceEvent event memory
  | .simulator => x.simulatorStep
  | .receive packet slot => x.receive packet slot
  | .lookup r packet =>
    if x.Requested packet then
      { x with cache := x.cache.step (.get r (packet - firstSequenceId).toUInt32) }
    else x
  | .server r => { x with cache := x.cache.step (.read r) }

def run (x : Exchange R) (turns : List (ExchangeTurn R)) : Exchange R := turns.foldl step x

end Exchange

/-! ## Messages and their numbers -/

/-- A message with a number, its header in front of its bytes. -/
def EncodedMessage.Numbered (number : Nat) (m : EncodedMessage) : Prop :=
  m.header.sequenceNumber.toNat = number ∧ ∃ rest, m.buffer = m.header.serialize ++ rest

theorem generateMessage_numbered (s : Sequencer) (event : MarketEvent) (memory : MessageMemory) :
    ∃ message, s.generateMessage event memory = some (message, ⟨s.sequencerCounter + 1⟩) ∧
      message.Numbered s.sequencerCounter.toNat :=
  ⟨_, s.generateMessage_eq event memory.property, rfl, _, rfl⟩

/-- What is sent of a numbered message begins with its header. -/
theorem EncodedMessage.Numbered.message_eq {number : Nat} {m : EncodedMessage} (h : m.Numbered number) :
    ∃ rest, m.message = m.header.serialize ++ rest := by
  obtain ⟨-, rest, hbuffer⟩ := h
  have hsize : MessageHeader.packedWireSize ≤ m.header.wireSize := by
    rw [MessageHeader.wireSize]
    split <;> omega
  refine ⟨rest.take (m.header.wireSize - MessageHeader.packedWireSize), ?_⟩
  rw [EncodedMessage.message, hbuffer, List.take_append, MessageHeader.length_serialize,
    List.take_of_length_le (by rw [MessageHeader.length_serialize]; exact hsize)]

/-- The header arrives with the datagram, whatever the slot held. -/
theorem EncodedMessage.Numbered.received {number : Nat} {m : EncodedMessage} (h : m.Numbered number)
    (slot : EncodedMessage) :
    (slot.receiveDatagram m.message).decodeHeaderFromBuffer.header = m.header := by
  obtain ⟨rest, hmessage⟩ := h.message_eq
  have hmax : m.header.serialize.length ≤ EncodedMessage.maxWireSize := by
    rw [MessageHeader.length_serialize]
    decide
  obtain ⟨more, hmore⟩ : ∃ more, (slot.receiveDatagram m.message).buffer = m.header.serialize ++ more := by
    apply Exists.intro
    rw [EncodedMessage.receiveDatagram, overwrite, hmessage, List.take_append, List.take_of_length_le hmax,
      List.take_zero, List.nil_append, List.append_assoc]
  have hslot : slot.receiveDatagram m.message = ⟨slot.header, m.header.serialize ++ more⟩ := by
    rw [← hmore]
    rfl
  rw [hslot, decodeHeaderFromBuffer_eq]

/-- A request asks for numbers above the last one and below the one received. -/
theorem hasGap_bounds {g : GapDetector} {header : MessageHeader} {n : Nat}
    (hn : n < 2 ^ 32) (hrecent : g.mostRecentPacketId.toNat ≤ n) (hheader : header.sequenceNumber.toNat ≤ n) :
    (g.hasGap header).2.mostRecentPacketId.toNat ≤ n ∧
      ∀ q, (g.hasGap header).1 = some q → 1 ≤ q.firstPacket.toNat ∧ q.lastPacket.toNat ≤ n := by
  rw [GapDetector.hasGap]
  split
  · refine ⟨hheader, ?_⟩
    intro q hq
    cases hq
    refine ⟨?_, hheader⟩
    show 1 ≤ (g.mostRecentPacketId + 1).toNat
    rw [UInt64.toNat_add, UInt64.toNat_one]
    omega
  · split
    · rename_i hnext
      exact ⟨by rw [← hnext]; exact hheader, fun q hq => by cases hq⟩
    · exact ⟨hrecent, fun q hq => by cases hq⟩

/-! ## The order of caching and sending -/

namespace Exchange

variable {R : Type} [DecidableEq R] {x : Exchange R}

/-- Where the simulator stands, and the number of the message it holds. -/
def SimulatorAt (x : Exchange R) : SimulatorPc → Prop
  | .waiting => x.cache.writer.busy = false ∧ x.sequencer.sequencerCounter.toNat = x.cache.items.length + 1
  | .caching message => x.cache.writer.busy = false ∧
      x.sequencer.sequencerCounter.toNat = x.cache.items.length + 2 ∧ message.Numbered (x.cache.items.length + 1)
  | .putting message => x.cache.writer.busy = true ∧
      x.sequencer.sequencerCounter.toNat = x.cache.items.length + 1 ∧ message.Numbered x.cache.items.length
  | .broadcasting message => x.cache.writer.busy = false ∧
      x.sequencer.sequencerCounter.toNat = x.cache.items.length + 1 ∧ message.Numbered x.cache.items.length

structure CachedFirst (x : Exchange R) : Prop where
  cache : x.cache.Opening ∨ x.cache.Sound
  messages : ∀ (i : Nat) (m : EncodedMessage), x.cache.items[i]? = some m → m.Numbered (i + 1)
  simulator : x.SimulatorAt x.simulator
  broadcast : ∀ m ∈ x.broadcast, ∃ n ≤ x.cache.completed, m.Numbered n
  detector : x.detector.mostRecentPacketId.toNat ≤ x.cache.completed
  requested : ∀ q ∈ x.requested, 1 ≤ q.firstPacket.toNat ∧ q.lastPacket.toNat ≤ x.cache.completed
  calls : ∀ r itemIndex completed, (x.cache.readers r).call = some (itemIndex, completed) →
    itemIndex.toNat < completed
  lookups : ∀ l ∈ x.cache.lookups, l.itemIndex.toNat < l.completed

theorem cachedFirst_init (memory : Nat → EncodedMessage) : (init memory : Exchange R).CachedFirst where
  cache := Or.inl (.fresh memory)
  messages := by simp [init, CacheMachine.init]
  simulator := ⟨rfl, rfl⟩
  broadcast := by simp [init]
  detector := Nat.le_refl _
  requested := by simp [init]
  calls := by simp [init, CacheMachine.init, ReaderPc.call]
  lookups := by simp [init, CacheMachine.init]

theorem CachedFirst.sequence (h : x.CachedFirst) (hbound : x.cache.items.length < 2 ^ 32 - 1)
    (event : MarketEvent) (memory : MessageMemory) : (x.sequenceEvent event memory).CachedFirst := by
  obtain ⟨message, hmessage, hnumbered⟩ := generateMessage_numbered x.sequencer event memory
  have hat := h.simulator
  cases hpc : x.simulator with
  | waiting =>
    rw [hpc] at hat
    obtain ⟨hidle, hcounter⟩ := hat
    simp only [sequenceEvent, hpc, hmessage]
    refine ⟨h.cache, h.messages, ⟨hidle, ?_, ?_⟩, h.broadcast, h.detector, h.requested, h.calls,
      h.lookups⟩
    · show (x.sequencer.sequencerCounter + 1).toNat = x.cache.items.length + 2
      rw [UInt64.toNat_add, hcounter, UInt64.toNat_one]
      omega
    · show message.Numbered (x.cache.items.length + 1)
      rw [← hcounter]
      exact hnumbered
  | caching message | putting message | broadcasting message =>
    simp only [sequenceEvent, hpc]
    exact h

theorem CachedFirst.count (h : x.CachedFirst) :
    x.cache.items.length = x.cache.completed + x.cache.writer.busy.toNat := by
  rcases h.cache with hopening | hsound
  · obtain ⟨hcompleted, -, -, hlength⟩ := hopening.quiet
    omega
  · exact hsound.count

theorem CachedFirst.cache_put (h : x.CachedFirst) {message : EncodedMessage}
    (hpc : x.simulator = .caching message) : x.simulatorStep.CachedFirst := by
  have hat := h.simulator
  rw [hpc] at hat
  obtain ⟨hidle, hcounter, hnumbered⟩ := hat
  have hput := CacheMachine.step_put hidle message
  have hcache : (x.cache.step (.put message)).Opening ∨ (x.cache.step (.put message)).Sound :=
    h.cache.imp (fun hopening => hopening.put message) (fun hsound => hsound.put message)
  have hstep : x.simulatorStep =
      { x with cache := x.cache.step (.put message), simulator := .putting message } := by
    simp only [simulatorStep, hpc]
  rw [hstep]
  refine ⟨hcache, ?_, ?_, ?_, ?_, ?_, ?_, ?_⟩
  · intro i m hm
    simp only [hput] at hm
    by_cases hi : i = x.cache.items.length
    · rw [hi, List.getElem?_concat_length] at hm
      cases hm
      rw [hi]
      exact hnumbered
    · have hlt := (List.getElem?_eq_some_iff.mp hm).1
      rw [List.length_append, List.length_singleton] at hlt
      rw [List.getElem?_append_left (by omega)] at hm
      exact h.messages i m hm
  · simp only [SimulatorAt, hput, List.length_append, List.length_singleton]
    exact ⟨rfl, hcounter, hnumbered⟩
  · simp only [hput]
    exact h.broadcast
  · simp only [hput]
    exact h.detector
  · simp only [hput]
    exact h.requested
  · simp only [hput]
    exact h.calls
  · simp only [hput]
    exact h.lookups

theorem CachedFirst.cache_write (h : x.CachedFirst) (hbound : x.cache.items.length < 2 ^ 32 - 1)
    {message : EncodedMessage} (hpc : x.simulator = .putting message) : x.simulatorStep.CachedFirst := by
  have hat := h.simulator
  rw [hpc] at hat
  obtain ⟨hbusy, hcounter, hnumbered⟩ := hat
  have hcount := h.count
  obtain ⟨hitems, hreaders, hlookups, hle⟩ := x.cache.step_write (by omega)
  have hcache : (x.cache.step .write).Opening ∨ (x.cache.step .write).Sound := by
    rcases h.cache with hopening | hsound
    · exact hopening.write
    · exact Or.inr (hsound.step hbound .write)
  have hstep : x.simulatorStep = { x with
      cache := x.cache.step .write
      simulator := if (x.cache.step .write).writer.busy then .putting message else .broadcasting message } := by
    simp only [simulatorStep, hpc]
  rw [hstep]
  refine ⟨hcache, ?_, ?_, ?_, ?_, ?_, ?_, ?_⟩
  · simp only [hitems]
    exact h.messages
  · by_cases hstill : (x.cache.step .write).writer.busy = true
    · simp only [SimulatorAt, hstill, if_true, hitems]
      exact ⟨trivial, hcounter, hnumbered⟩
    · simp only [SimulatorAt, hstill, hitems]
      exact ⟨by simp, hcounter, hnumbered⟩
  · intro m hm
    obtain ⟨n, hn, hm⟩ := h.broadcast m hm
    exact ⟨n, Nat.le_trans hn hle, hm⟩
  · exact Nat.le_trans h.detector hle
  · intro q hq
    exact ⟨(h.requested q hq).1, Nat.le_trans (h.requested q hq).2 hle⟩
  · simp only [hreaders]
    exact h.calls
  · simp only [hlookups]
    exact h.lookups

theorem CachedFirst.broadcast_one (h : x.CachedFirst) {message : EncodedMessage}
    (hpc : x.simulator = .broadcasting message) : x.simulatorStep.CachedFirst := by
  have hat := h.simulator
  rw [hpc] at hat
  obtain ⟨hidle, hcounter, hnumbered⟩ := hat
  have hcount := h.count
  rw [hidle, Bool.toNat_false, Nat.add_zero] at hcount
  simp only [simulatorStep, hpc]
  refine ⟨h.cache, h.messages, ⟨hidle, hcounter⟩, ?_, h.detector, h.requested, h.calls, h.lookups⟩
  intro m hm
  rcases List.mem_append.mp hm with hold | hnew
  · exact h.broadcast m hold
  · rw [List.mem_singleton.mp hnew]
    exact ⟨x.cache.items.length, Nat.le_of_eq hcount, hnumbered⟩

theorem CachedFirst.simulator_step (h : x.CachedFirst) (hbound : x.cache.items.length < 2 ^ 32 - 1) :
    x.simulatorStep.CachedFirst := by
  cases hpc : x.simulator with
  | waiting =>
    simp only [simulatorStep, hpc]
    exact h
  | caching message => exact h.cache_put hpc
  | putting message => exact h.cache_write hbound hpc
  | broadcasting message => exact h.broadcast_one hpc

theorem CachedFirst.received (h : x.CachedFirst) (hbound : x.cache.items.length < 2 ^ 32 - 1) (packet : Nat)
    (slot : EncodedMessage) : (x.receive packet slot).CachedFirst := by
  have hcount := h.count
  rw [receive]
  split
  · exact h
  · rename_i message hmessage
    obtain ⟨n, hn, hnumbered⟩ := h.broadcast message (List.mem_of_getElem? hmessage)
    have hheader := hnumbered.received slot
    obtain ⟨hrecent, hrequest⟩ := hasGap_bounds (by omega) h.detector
      (show message.header.sequenceNumber.toNat ≤ _ by rw [hnumbered.1]; exact hn)
    simp only [hheader]
    refine ⟨h.cache, h.messages, h.simulator, h.broadcast, hrecent, ?_, h.calls, h.lookups⟩
    intro q hq
    rcases List.mem_append.mp hq with hold | hnew
    · exact h.requested q hold
    · exact hrequest q (Option.mem_toList.mp hnew)

/-- The server's steps change only what it is doing and what it got. -/
theorem CachedFirst.same_store (h : x.CachedFirst)
    {cache : CacheMachine R EncodedMessage retransmitCacheBits} (hcache : cache.Opening ∨ cache.Sound)
    (hsame : x.cache.SameStore cache)
    (hcalls : ∀ r itemIndex completed, (cache.readers r).call = some (itemIndex, completed) →
      itemIndex.toNat < completed)
    (hlookups : ∀ l ∈ cache.lookups, l.itemIndex.toNat < l.completed) :
    CachedFirst { x with cache := cache } := by
  obtain ⟨hstore, hwriter, hitems⟩ := hsame
  have hcompleted : cache.completed = x.cache.completed := by rw [CacheMachine.completed, hstore]; rfl
  refine ⟨hcache, ?_, ?_, ?_, ?_, ?_, hcalls, hlookups⟩
  · simp only [hitems]
    exact h.messages
  · have hat := h.simulator
    cases hpc : x.simulator <;> rw [hpc] at hat <;> simp only [SimulatorAt, hwriter, hitems] <;> exact hat
  · simp only [hcompleted]
    exact h.broadcast
  · simp only [hcompleted]
    exact h.detector
  · simp only [hcompleted]
    exact h.requested

/-- The index of a requested packet is one less than its number. -/
theorem CachedFirst.index_of_requested (h : x.CachedFirst) (hbound : x.cache.items.length < 2 ^ 32 - 1)
    {packet : UInt64} (hpacket : x.Requested packet) :
    (packet - firstSequenceId).toUInt32.toNat + firstSequenceId.toNat = packet.toNat ∧
      packet.toNat ≤ x.cache.completed := by
  have hcount := h.count
  obtain ⟨q, hq, hfirst, hlast⟩ := hpacket
  obtain ⟨hone, hcompleted⟩ := h.requested q hq
  have hfirst : q.firstPacket.toNat ≤ packet.toNat := hfirst
  have hlast : packet.toNat < q.lastPacket.toNat := hlast
  have hid : firstSequenceId.toNat = 1 := rfl
  have hle : firstSequenceId ≤ packet := by
    rw [UInt64.le_iff_toNat_le]
    omega
  rw [UInt64.toNat_toUInt32, UInt64.toNat_sub_of_le _ _ hle]
  omega

/-- The server looks up packets whose put has completed. -/
theorem CachedFirst.lookup (h : x.CachedFirst) (hbound : x.cache.items.length < 2 ^ 32 - 1) (r : R)
    {packet : UInt64} (hpacket : x.Requested packet) :
    CachedFirst { x with cache := x.cache.step (.get r (packet - firstSequenceId).toUInt32) } := by
  obtain ⟨hnumber, hcompleted⟩ := h.index_of_requested hbound hpacket
  have hid : firstSequenceId.toNat = 1 := rfl
  have hindex : (packet - firstSequenceId).toUInt32.toNat < x.cache.completed := by omega
  have hsound : x.cache.Sound := by
    refine h.cache.resolve_left fun hopening => ?_
    have := hopening.quiet.1
    omega
  obtain ⟨hsame, hlookups, hcalls⟩ := x.cache.step_get r (packet - firstSequenceId).toUInt32
  refine h.same_store (Or.inr (hsound.get r _)) hsame ?_ (by rw [hlookups]; exact h.lookups)
  intro r' itemIndex completed hcall
  rcases hcalls r' _ hcall with hold | hnew
  · exact h.calls r' itemIndex completed hold
  · cases hnew
    exact hindex

theorem CachedFirst.server (h : x.CachedFirst) (hbound : x.cache.items.length < 2 ^ 32 - 1) (r : R) :
    CachedFirst { x with cache := x.cache.step (.read r) } := by
  obtain ⟨hsame, hlookups, hcalls⟩ := x.cache.step_read r
  have hcache : (x.cache.step (.read r)).Opening ∨ (x.cache.step (.read r)).Sound := by
    rcases h.cache with hopening | hsound
    · have hidle := hopening.quiet.2.1 r
      left
      simp only [CacheMachine.step, CacheMachine.read, hidle, ReaderPc.call]
      exact hopening
    · exact Or.inr (hsound.step hbound (.read r))
  refine h.same_store hcache hsame (fun r' itemIndex completed hcall => h.calls r' _ _ (hcalls r' _ hcall)) ?_
  intro l hl
  rcases hlookups l hl with hold | hcall
  · exact h.lookups l hold
  · exact h.calls r _ _ hcall

theorem CachedFirst.step (h : x.CachedFirst) (hbound : x.cache.items.length < 2 ^ 32 - 1) (t : ExchangeTurn R) :
    (x.step t).CachedFirst := by
  cases t with
  | sequence event memory => exact h.sequence hbound event memory
  | simulator => exact h.simulator_step hbound
  | receive packet slot => exact h.received hbound packet slot
  | lookup r packet =>
    rw [Exchange.step]
    split
    · rename_i hpacket
      exact h.lookup hbound r hpacket
    · exact h
  | server r => exact h.server hbound r

theorem step_items (x : Exchange R) (t : ExchangeTurn R) : x.cache.items <+: (x.step t).cache.items := by
  cases t with
  | sequence event memory =>
    simp only [Exchange.step, sequenceEvent]
    split <;> exact List.prefix_refl _
  | simulator =>
    simp only [Exchange.step, simulatorStep]
    split
    · exact List.prefix_refl _
    · exact x.cache.step_items _
    · exact x.cache.step_items _
    · exact List.prefix_refl _
  | receive packet slot =>
    simp only [Exchange.step, receive]
    split <;> exact List.prefix_refl _
  | lookup r packet =>
    simp only [Exchange.step]
    split
    · exact x.cache.step_items _
    · exact List.prefix_refl _
  | server r => exact x.cache.step_items _

theorem run_items (x : Exchange R) (turns : List (ExchangeTurn R)) :
    x.cache.items <+: (x.run turns).cache.items := by
  induction turns generalizing x with
  | nil => exact List.prefix_refl _
  | cons t turns ih => exact (step_items x t).trans (ih (x.step t))

theorem CachedFirst.run (h : x.CachedFirst) (turns : List (ExchangeTurn R))
    (hbound : (x.run turns).cache.items.length < 2 ^ 32 - 1) : (x.run turns).CachedFirst := by
  induction turns generalizing x with
  | nil => exact h
  | cons t turns ih =>
    have hlength := (run_items x (t :: turns)).length_le
    exact ih (h.step (by omega) t) hbound

/-- What the lookups of the server have returned. -/
theorem CachedFirst.lookups_succeed (h : x.CachedFirst) :
    ∀ l ∈ x.cache.lookups, l.result ≠ .error .dataDoesNotExist ∧
      ((∃ message, l.result = .ok message ∧ x.cache.items[l.itemIndex.toNat]? = some message ∧
          message.header.sequenceNumber.toNat = l.itemIndex.toNat + firstSequenceId.toNat) ∨
        l.itemIndex.toNat + firstSequenceId.toNat + 2 ^ retransmitCacheBits ≤ l.started) := by
  intro l hl
  have hsound : x.cache.Sound := by
    refine h.cache.resolve_left fun hopening => ?_
    rw [hopening.quiet.2.2.1] at hl
    cases hl
  obtain ⟨hok, hpresent⟩ := hsound.lookups l hl
  obtain ⟨hexists, hresult⟩ := hpresent (h.lookups l hl)
  refine ⟨hexists, ?_⟩
  rcases hresult with ⟨message, hmessage⟩ | hlap
  · have hitem := hok message hmessage
    exact Or.inl ⟨message, hmessage, hitem, (h.messages _ _ hitem).1⟩
  · right
    show l.itemIndex.toNat + 1 + _ ≤ _
    omega

/-- In every interleaving with fewer than `2 ^ 32 - 1` packets: every lookup of a requested
packet finds that it exists, and returns the message with its number unless the put of
the packet a lap later has started before the lookup ends. -/
theorem requested_lookup_succeeds (memory : Nat → EncodedMessage) (turns : List (ExchangeTurn R))
    (hbound : ((init memory : Exchange R).run turns).cache.items.length < 2 ^ 32 - 1) :
    (∀ l ∈ ((init memory : Exchange R).run turns).cache.lookups,
      l.result ≠ .error .dataDoesNotExist ∧
      ((∃ message, l.result = .ok message ∧
          ((init memory : Exchange R).run turns).cache.items[l.itemIndex.toNat]? = some message ∧
          message.header.sequenceNumber.toNat = l.itemIndex.toNat + firstSequenceId.toNat) ∨
        l.itemIndex.toNat + firstSequenceId.toNat + 2 ^ retransmitCacheBits ≤ l.started)) ∧
    ∀ packet, ((init memory : Exchange R).run turns).Requested packet →
      ∀ l ∈ ((init memory : Exchange R).run turns).cache.lookups,
        l.itemIndex = (packet - firstSequenceId).toUInt32 →
        l.result ≠ .error .dataDoesNotExist ∧
        ((∃ message, l.result = .ok message ∧ message.header.sequenceNumber = packet) ∨
          packet.toNat + 2 ^ retransmitCacheBits ≤ l.started) := by
  have h := (cachedFirst_init memory).run turns hbound
  have hall := h.lookups_succeed
  refine ⟨hall, ?_⟩
  intro packet hpacket l hl hindex
  obtain ⟨hnumber, -⟩ := h.index_of_requested hbound hpacket
  rw [← hindex] at hnumber
  obtain ⟨hexists, hresult⟩ := hall l hl
  rw [hnumber] at hresult
  refine ⟨hexists, hresult.imp_left ?_⟩
  rintro ⟨message, hmessage, -, hsequence⟩
  exact ⟨message, hmessage, UInt64.toNat_inj.mp hsequence⟩

end Exchange

/-- Two events are sequenced, cached and broadcast; the first packet is lost, and the server
looks it up for the handler. -/
def recoveredTurns : List (ExchangeTurn Unit) :=
  let sent (event : MarketEvent) : List (ExchangeTurn Unit) :=
    .sequence event blankMemory :: List.replicate 4 .simulator
  sent ⟨⟨1, 100, 5, .buy⟩, .add⟩ ++ sent ⟨⟨2, 101, 5, .sell⟩, .add⟩ ++
    [.receive 1 ⟨⟨0, 0⟩, []⟩, .lookup () 1] ++ List.replicate 3 (.server ())

theorem requested_lookup_succeeds_recoveredTurns :
    let x := (Exchange.init (fun _ => ⟨⟨0, 0⟩, []⟩)).run recoveredTurns
    x.requested = [⟨1, 2⟩] ∧ x.cache.lookups.map (fun l => (l.itemIndex, l.started)) = [(0, 2)] ∧
    (∀ l ∈ x.cache.lookups, l.result ≠ .error .dataDoesNotExist ∧
      ((∃ message, l.result = .ok message ∧ x.cache.items[l.itemIndex.toNat]? = some message ∧
          message.header.sequenceNumber.toNat = l.itemIndex.toNat + firstSequenceId.toNat) ∨
        l.itemIndex.toNat + firstSequenceId.toNat + 2 ^ retransmitCacheBits ≤ l.started)) ∧
    ∀ l ∈ x.cache.lookups, l.itemIndex = 0 →
      (∃ message, l.result = .ok message ∧ message.header.sequenceNumber = 1) ∨
        (1 : UInt64).toNat + 2 ^ retransmitCacheBits ≤ l.started := by
  obtain ⟨hall, hpacket⟩ := Exchange.requested_lookup_succeeds (fun _ => ⟨⟨0, 0⟩, []⟩) recoveredTurns
    (by decide +kernel)
  refine ⟨by decide +kernel, by decide +kernel, hall, ?_⟩
  intro l hl hindex
  exact (hpacket 1 (by decide +kernel) l hl hindex).2

end HftPipeline
