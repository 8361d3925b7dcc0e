import HftPipeline.CachedBroadcast
import HftPipeline.Pipeline

/-!
# The exchange simulator

`ExchangeSimulator` with its three threads: the order generator, whose events go into a ring
buffer; `run`, which takes them out, numbers them, and caches and broadcasts the messages; and
the retransmit server, which looks packets up for the client it is connected to. A turn is a
single step of one of the threads. What the server streams are the cached messages the
client has asked for, in their order.
-/
namespace HftPipeline

open CircularCache

/-- `config::MARKET_EVENT_BUFFER_CAPACITY` of the exchange, `2 ^ 14`. -/
abbrev ExchangeEventBuffer := LazyRingMachine MarketEvent ⟨14, by decide⟩

/-- `broadcast` is what has been sent. The connection to the client holds the requests the server
has not received and the messages the client has not, with `none` where the server has closed it. -/
structure ExchangeSimulator where
  marketEventBuffer : ExchangeEventBuffer
  sequencer : Sequencer
  simulator : SimulatorPc
  retransmitCache : CacheMachine Unit EncodedMessage retransmitCacheBits
  broadcast : List EncodedMessage
  requests : List RetransmitRequest
  serving : Option RetransmitRequest
  stream : List (Option EncodedMessage)

namespace ExchangeSimulator

def init (events : Nat → MarketEvent) (slots : Nat → EncodedMessage) : ExchangeSimulator where
  marketEventBuffer := LazyRingMachine.init events
  sequencer := Sequencer.init
  simulator := .waiting
  retransmitCache := CacheMachine.init slots
  broadcast := []
  requests := []
  serving := none
  stream := []

/-- The next event of the order generator goes into the ring buffer. -/
def generatorStep (feed : Feed) (x : ExchangeSimulator) : ExchangeSimulator :=
  match feed.events[x.marketEventBuffer.published.length]? with
  | none => x
  | some event => { x with marketEventBuffer := x.marketEventBuffer.producerStep event }

/-- `ExchangeSimulator::run`, which consumes the event between `generate_message` and `put_item`. -/
def simulatorStep (feed : Feed) (x : ExchangeSimulator) : Option ExchangeSimulator :=
  match x.simulator with
  | .waiting =>
    match x.marketEventBuffer.consumer with
    | .claimed slot => do
      let (message, sequencer) ← x.sequencer.generateMessage (x.marketEventBuffer.ring.buffer slot)
        (feed.memory x.marketEventBuffer.obtained.length)
      return { x with
        marketEventBuffer := x.marketEventBuffer.consumerStep
        sequencer := sequencer
        simulator := .caching message }
    | _ => some { x with marketEventBuffer := x.marketEventBuffer.consumerStep }
  | .caching message =>
    match x.marketEventBuffer.consumer with
    | .idle => some { x with
        retransmitCache := x.retransmitCache.step (.put message), simulator := .putting message }
    | _ => some { x with marketEventBuffer := x.marketEventBuffer.consumerStep }
  | .putting message =>
    let retransmitCache := x.retransmitCache.step .write
    some { x with
      retransmitCache := retransmitCache
      simulator := if retransmitCache.writer.busy then .putting message else .broadcasting message }
  | .broadcasting message => some { x with broadcast := x.broadcast ++ [message], simulator := .waiting }

/-- `close_client`, which sends no message. -/
def closeClient (x : ExchangeSimulator) : ExchangeSimulator :=
  { x with serving := none, stream := x.stream ++ [none] }

/-- `RetransmitServer::handle_request` and the loop of `stream_packets`, whose first test can only
fail for the first packet. -/
def serverStep (x : ExchangeSimulator) : ExchangeSimulator :=
  match x.serving with
  | none =>
    match x.requests with
    | [] => x
    | request :: requests => { x with requests := requests, serving := some request }
  | some request =>
    if request.firstPacket < firstSequenceId then x.closeClient
    else if request.firstPacket < request.lastPacket then
      match x.retransmitCache.readers () with
      | .idle => { x with
          retransmitCache := x.retransmitCache.step (.get () (request.firstPacket - firstSequenceId).toUInt32) }
      | reader =>
        let read : ExchangeSimulator := { x with retransmitCache := x.retransmitCache.step (.read ()) }
        match (readerStep x.retransmitCache.cache reader).2 with
        | none => read
        | some (.error _) => read.closeClient
        | some (.ok message) => { read with
            serving := some { request with firstPacket := request.firstPacket + 1 }
            stream := x.stream ++ [some message] }
    else { x with serving := none }

/-- The messages whose put has completed. -/
def cached (x : ExchangeSimulator) : List EncodedMessage := x.retransmitCache.items.take x.retransmitCache.completed

end ExchangeSimulator

namespace LazyRingMachine

theorem producerStep_consumer {T : Type} {bits : Fin 64} (m : LazyRingMachine T bits) (item : T) :
    (m.producerStep item).consumer = m.consumer := by
  rw [producerStep]
  split
  · rfl
  · split <;> rfl
  · rfl
  · rfl
  · rfl

/-- What was read is about to be given back, or is. -/
theorem consumerStep_taken {T : Type} {bits : Fin 64} (m : LazyRingMachine T bits)
    (htaken : m.consumer.stage = .taken) :
    m.consumerStep.consumer = .idle ∨ m.consumerStep.consumer.stage = .taken := by
  cases hpc : m.consumer with
  | idle | claiming _ | claimed _ =>
    rw [hpc] at htaken
    cases htaken
  | read =>
    right
    rw [consumerStep, hpc]
    rfl
  | consuming currentTail =>
    left
    rw [consumerStep, hpc]

end LazyRingMachine

/-- One item more. -/
theorem extend_by_next {T : Type} {front items : List T} {item : T} (h : front <+: items)
    (hitem : items[front.length]? = some item) : front ++ [item] <+: items := by
  obtain ⟨rest, rfl⟩ := h
  rw [List.getElem?_append_right (le_refl _), Nat.sub_self] at hitem
  obtain ⟨rest', rfl⟩ := List.head?_eq_some_iff.mp (List.head?_eq_getElem? ▸ hitem)
  exact ⟨rest', by rw [List.append_assoc]; rfl⟩

/-- The message of the event with an index, as the sequencer makes it. -/
def Feed.Makes (feed : Feed) (k : Nat) (m : EncodedMessage) : Prop :=
  ∃ event, feed.events[k]? = some event ∧
    (⟨UInt64.ofNat (k + 1)⟩ : Sequencer).generateMessage event (feed.memory k) = some (m, ⟨UInt64.ofNat (k + 2)⟩)

theorem Feed.exists_makes (feed : Feed) {k : Nat} {event : MarketEvent} (hevent : feed.events[k]? = some event) :
    ∃ m, (⟨UInt64.ofNat (k + 1)⟩ : Sequencer).generateMessage event (feed.memory k) =
      some (m, ⟨UInt64.ofNat (k + 2)⟩) ∧ feed.Makes k m := by
  obtain ⟨m, hgenerate, -⟩ := feed.generateMessage_isPacket (k + 1) (Nat.le_add_left 1 k) hevent (feed.memory_length k)
  exact ⟨m, hgenerate, event, hevent, hgenerate⟩

theorem Feed.Makes.isPacket {feed : Feed} {k : Nat} {m : EncodedMessage} (h : feed.Makes k m) :
    feed.IsPacket (k + 1) m := by
  obtain ⟨event, hevent, hgenerate⟩ := h
  obtain ⟨m', hgenerate', hpacket⟩ := feed.generateMessage_isPacket (k + 1) (Nat.le_add_left 1 k) hevent
    (feed.memory_length k)
  rw [hgenerate] at hgenerate'
  cases hgenerate'
  exact hpacket

/-- No packet is left to send. -/
def RetransmitRequest.Done (request : RetransmitRequest) : Prop := ¬ request.firstPacket < request.lastPacket

/-- The packets asked for are in the cache. -/
def RetransmitRequest.Within (request : RetransmitRequest) (completed : Nat) : Prop :=
  1 ≤ request.firstPacket.toNat ∧ request.lastPacket.toNat ≤ completed

theorem RetransmitRequest.Within.mono {request : RetransmitRequest} {completed completed' : Nat}
    (h : request.Within completed) (hle : completed ≤ completed') : request.Within completed' :=
  ⟨h.1, h.2.trans hle⟩

/-- The first test of `stream_packets` passes. -/
theorem RetransmitRequest.Within.not_before {request : RetransmitRequest} {completed : Nat}
    (h : request.Within completed) : ¬ request.firstPacket < firstSequenceId := by
  intro hlt
  have hlt : request.firstPacket.toNat < (1 : UInt64).toNat := hlt
  rw [UInt64.toNat_one] at hlt
  exact absurd h.1 (Nat.not_le.mpr hlt)

namespace ExchangeSimulator

variable {feed : Feed} {x x' : ExchangeSimulator}

/-! ## The invariant -/

/-- Where the simulator stands: what it has obtained from the ring buffer and not given back, and
what it has cached and not broadcast. -/
def Stands (feed : Feed) (x : ExchangeSimulator) : SimulatorPc → Prop
  | .waiting => x.marketEventBuffer.consumer.stage ≠ .taken ∧ x.retransmitCache.writer.busy = false ∧
      x.retransmitCache.items.length = x.marketEventBuffer.obtained.length ∧
      x.broadcast = x.retransmitCache.items
  | .caching message =>
      (x.marketEventBuffer.consumer = .idle ∨ x.marketEventBuffer.consumer.stage = .taken) ∧
      x.retransmitCache.writer.busy = false ∧
      x.retransmitCache.items.length + 1 = x.marketEventBuffer.obtained.length ∧
      x.broadcast = x.retransmitCache.items ∧ feed.Makes x.retransmitCache.items.length message
  | .putting message => x.marketEventBuffer.consumer = .idle ∧ x.retransmitCache.writer.busy = true ∧
      x.retransmitCache.items.length = x.marketEventBuffer.obtained.length ∧
      x.broadcast ++ [message] = x.retransmitCache.items
  | .broadcasting message => x.marketEventBuffer.consumer = .idle ∧ x.retransmitCache.writer.busy = false ∧
      x.retransmitCache.items.length = x.marketEventBuffer.obtained.length ∧
      x.broadcast ++ [message] = x.retransmitCache.items

/-- The server looks up the first packet of the request it is serving. -/
def LooksUp (x : ExchangeSimulator) (itemIndex : UInt32) : Prop :=
  ∃ request, x.serving = some request ∧ request.firstPacket < request.lastPacket ∧
    itemIndex = (request.firstPacket - firstSequenceId).toUInt32

structure Sound (feed : Feed) (x : ExchangeSimulator) : Prop where
  ring : x.marketEventBuffer.Sound
  published : x.marketEventBuffer.published <+: feed.events
  written : ∀ event, x.marketEventBuffer.producer.stage = .written event →
    feed.events[x.marketEventBuffer.published.length]? = some event
  sequencer : x.sequencer = ⟨UInt64.ofNat (x.marketEventBuffer.obtained.length + 1)⟩
  cache : x.retransmitCache.Opening ∨ x.retransmitCache.Sound
  items : ∀ k m, x.retransmitCache.items[k]? = some m → feed.Makes k m
  simulator : x.Stands feed x.simulator
  requests : ∀ request ∈ x.requests, request.Within x.retransmitCache.completed
  serving : ∀ request, x.serving = some request → request.Within x.retransmitCache.completed
  lookup : ∀ itemIndex completed, (x.retransmitCache.readers ()).call = some (itemIndex, completed) →
    x.LooksUp itemIndex

theorem sound_init (events : Nat → MarketEvent) (slots : Nat → EncodedMessage) : (init events slots).Sound feed where
  ring := LazyRingMachine.sound_init events
  published := List.nil_prefix
  written := by rintro event ⟨⟩
  sequencer := rfl
  cache := Or.inl (.fresh slots)
  items := by simp [init, CacheMachine.init]
  simulator := ⟨by rintro ⟨⟩, rfl, rfl, rfl⟩
  requests := by simp [init]
  serving := by rintro request ⟨⟩
  lookup := by rintro itemIndex completed ⟨⟩

theorem Sound.count (h : x.Sound feed) :
    x.retransmitCache.items.length = x.retransmitCache.completed + x.retransmitCache.writer.busy.toNat := by
  rcases h.cache with hopening | hsound
  · obtain ⟨hcompleted, -, -, hlength⟩ := hopening.quiet
    omega
  · exact hsound.count

theorem Sound.items_le (h : x.Sound feed) :
    x.retransmitCache.items.length ≤ x.marketEventBuffer.obtained.length := by
  have hat := h.simulator
  cases hpc : x.simulator with
  | waiting =>
    rw [hpc] at hat
    exact hat.2.2.1.le
  | caching message =>
    rw [hpc] at hat
    exact Nat.le_of_succ_le hat.2.2.1.le
  | putting message =>
    rw [hpc] at hat
    exact hat.2.2.1.le
  | broadcasting message =>
    rw [hpc] at hat
    exact hat.2.2.1.le

theorem Sound.obtained_prefix (h : x.Sound feed) : x.marketEventBuffer.obtained <+: feed.events :=
  h.ring.safe.obtained_prefix.trans h.published

theorem Sound.few_items (h : x.Sound feed) (hfeed : feed.events.length < 2 ^ 32 - 1) :
    x.retransmitCache.items.length < 2 ^ 32 - 1 :=
  lt_of_le_of_lt (h.items_le.trans h.obtained_prefix.length_le) hfeed

theorem Sound.length_cached (h : x.Sound feed) : x.cached.length = x.retransmitCache.completed := by
  have hcount := h.count
  rw [cached, List.length_take]
  omega

theorem Sound.cached_of_idle (h : x.Sound feed) (hidle : x.retransmitCache.writer.busy = false) :
    x.cached = x.retransmitCache.items := by
  have hcount := h.count
  rw [hidle, Bool.toNat_false, Nat.add_zero] at hcount
  rw [cached, ← hcount, List.take_length]

/-- During a put the last message is not in the cache yet. -/
theorem Sound.cached_of_busy (h : x.Sound feed) (hbusy : x.retransmitCache.writer.busy = true)
    {front : List EncodedMessage} {message : EncodedMessage} (hitems : front ++ [message] = x.retransmitCache.items) :
    x.cached = front := by
  have hcount := h.count
  rw [hbusy, Bool.toNat_true, ← hitems, List.length_append, List.length_singleton, Nat.add_right_cancel_iff] at hcount
  rw [cached, ← hitems, ← hcount, List.take_left]

/-- What has been broadcast is in the cache. -/
theorem Sound.broadcast_prefix (h : x.Sound feed) : x.broadcast <+: x.cached := by
  have hat := h.simulator
  cases hpc : x.simulator with
  | waiting =>
    rw [hpc] at hat
    obtain ⟨-, hidle, -, hbroadcast⟩ := hat
    rw [h.cached_of_idle hidle, hbroadcast]
  | caching message =>
    rw [hpc] at hat
    obtain ⟨-, hidle, -, hbroadcast, -⟩ := hat
    rw [h.cached_of_idle hidle, hbroadcast]
  | putting message =>
    rw [hpc] at hat
    obtain ⟨-, hbusy, -, hitems⟩ := hat
    rw [h.cached_of_busy hbusy hitems]
  | broadcasting message =>
    rw [hpc] at hat
    obtain ⟨-, hidle, -, hitems⟩ := hat
    rw [h.cached_of_idle hidle, ← hitems]
    exact List.prefix_append _ _

theorem Sound.cached_makes (h : x.Sound feed) {k : Nat} {m : EncodedMessage} (hm : x.cached[k]? = some m) :
    feed.Makes k m :=
  h.items k m (VersionedCell.getElem?_of_prefix (List.take_prefix _ _) hm)

/-! ## The order generator -/

theorem Sound.generatorStep (h : x.Sound feed) : (x.generatorStep feed).Sound feed := by
  rw [ExchangeSimulator.generatorStep]
  split
  · exact h
  · rename_i event hevent
    have hconsumer := x.marketEventBuffer.producerStep_consumer event
    have hobtained := x.marketEventBuffer.producerStep_obtained event
    have hwritten := h.written
    have hat : ({ x with marketEventBuffer := x.marketEventBuffer.producerStep event } : ExchangeSimulator).Stands
        feed x.simulator := by
      have hstands := h.simulator
      cases hpc : x.simulator <;> rw [hpc] at hstands <;> simp only [Stands, hconsumer, hobtained] <;> exact hstands
    have hsequencer : x.sequencer =
        ⟨UInt64.ofNat ((x.marketEventBuffer.producerStep event).obtained.length + 1)⟩ := by
      rw [hobtained]
      exact h.sequencer
    rcases x.marketEventBuffer.producerStep_published event with
      ⟨written, currentHead, hproducer, hpublished, hidle⟩ | ⟨-, hpublished⟩
    · have hnext := hwritten written (by rw [hproducer]; rfl)
      refine ⟨h.ring.producerStep event, ?_, ?_, hsequencer, h.cache, h.items, hat, h.requests, h.serving, h.lookup⟩
      · rw [hpublished]
        exact extend_by_next h.published hnext
      · intro event' hstage
        simp only [hidle] at hstage
        cases hstage
    · refine ⟨h.ring.producerStep event, hpublished ▸ h.published, ?_, hsequencer, h.cache, h.items, hat, h.requests,
        h.serving, h.lookup⟩
      intro event' hstage
      rw [hpublished]
      rcases x.marketEventBuffer.producerStep_written event hstage with rfl | hold
      · exact hevent
      · exact hwritten event' hold

theorem generatorStep_frame (feed : Feed) (x : ExchangeSimulator) :
    ((x.generatorStep feed).requests = x.requests ∧ (x.generatorStep feed).serving = x.serving ∧
      (x.generatorStep feed).stream = x.stream) ∧
    (x.generatorStep feed).cached = x.cached ∧ (x.generatorStep feed).broadcast = x.broadcast := by
  rw [ExchangeSimulator.generatorStep]
  split <;> exact ⟨⟨rfl, rfl, rfl⟩, rfl, rfl⟩

/-! ## The simulator -/

/-- A step of the simulator caches the next message, broadcasts one that is cached, or is
seen by no one. -/
structure Simulates (feed : Feed) (x x' : ExchangeSimulator) : Prop where
  connection : x'.requests = x.requests ∧ x'.serving = x.serving ∧ x'.stream = x.stream
  messages : (x'.cached = x.cached ∧ x'.broadcast = x.broadcast) ∨
    (∃ m, feed.Makes x.cached.length m ∧ x'.cached = x.cached ++ [m] ∧ x'.broadcast = x.broadcast) ∨
    (x'.cached = x.cached ∧ x'.broadcast.length = x.broadcast.length + 1)

/-- The loads and stores of the consumer, up to the read. -/
theorem Sound.consume (h : x.Sound feed) (hclaimed : ∀ slot, x.marketEventBuffer.consumer ≠ .claimed slot)
    (hat : ({ x with marketEventBuffer := x.marketEventBuffer.consumerStep } : ExchangeSimulator).Stands feed
      x.simulator) :
    ({ x with marketEventBuffer := x.marketEventBuffer.consumerStep } : ExchangeSimulator).Sound feed := by
  obtain ⟨hpublished, hproducer⟩ := x.marketEventBuffer.consumerStep_producer
  refine ⟨h.ring.consumerStep, hpublished ▸ h.published, ?_, ?_, h.cache, h.items, hat, h.requests, h.serving, h.lookup⟩
  · intro event hwritten
    rw [hpublished]
    exact h.written event (hproducer ▸ hwritten)
  · rw [x.marketEventBuffer.consumerStep_obtained hclaimed]
    exact h.sequencer

/-- The event in the slot is sequenced. -/
theorem Sound.sequence (h : x.Sound feed) (hpc : x.simulator = .waiting) {slot : Nat}
    (hclaimed : x.marketEventBuffer.consumer = .claimed slot) :
    ∃ x', x.simulatorStep feed = some x' ∧ x'.Sound feed ∧ Simulates feed x x' := by
  have hat := h.simulator
  rw [hpc] at hat
  obtain ⟨-, hidle, hlength, hbroadcast⟩ := hat
  obtain ⟨hpublished, hproducer⟩ := x.marketEventBuffer.consumerStep_producer
  have hring := h.ring.consumerStep
  have hobtained : x.marketEventBuffer.consumerStep.obtained =
      x.marketEventBuffer.obtained ++ [x.marketEventBuffer.ring.buffer slot] := by
    rw [LazyRingMachine.consumerStep, hclaimed]
  have hconsumer : x.marketEventBuffer.consumerStep.consumer = .read := by
    rw [LazyRingMachine.consumerStep, hclaimed]
  have hevent : feed.events[x.marketEventBuffer.obtained.length]? = some (x.marketEventBuffer.ring.buffer slot) := by
    have hextends := hring.safe.obtained_prefix
    rw [hobtained, hpublished] at hextends
    exact VersionedCell.getElem?_of_prefix (hextends.trans h.published) List.getElem?_concat_length
  obtain ⟨message, hgenerate, hmakes⟩ := feed.exists_makes hevent
  rw [← h.sequencer] at hgenerate
  refine ⟨{ x with
    marketEventBuffer := x.marketEventBuffer.consumerStep
    sequencer := ⟨UInt64.ofNat (x.marketEventBuffer.obtained.length + 2)⟩
    simulator := .caching message }, ?_, ?_, ⟨rfl, rfl, rfl⟩, Or.inl ⟨rfl, rfl⟩⟩
  · simp only [simulatorStep, hpc, hclaimed, hgenerate, Option.bind_eq_bind, Option.bind_some]
    rfl
  · refine ⟨hring, hpublished ▸ h.published, ?_, ?_, h.cache, h.items, ?_, h.requests, h.serving, h.lookup⟩
    · intro event hwritten
      rw [hpublished]
      exact h.written event (hproducer ▸ hwritten)
    · rw [hobtained, List.length_append, List.length_singleton]
    · refine ⟨Or.inr ?_, hidle, ?_, hbroadcast, ?_⟩
      · rw [hconsumer]
        rfl
      · rw [hobtained, List.length_append, List.length_singleton, hlength]
      · rw [hlength]
        exact hmakes

theorem Sound.simulate_waiting (h : x.Sound feed) (hpc : x.simulator = .waiting) :
    ∃ x', x.simulatorStep feed = some x' ∧ x'.Sound feed ∧ Simulates feed x x' := by
  have hat := h.simulator
  rw [hpc] at hat
  obtain ⟨hstage, hidle, hlength, hbroadcast⟩ := hat
  cases hconsumer : x.marketEventBuffer.consumer with
  | claimed slot => exact h.sequence hpc hconsumer
  | read | consuming _ =>
    rw [hconsumer] at hstage
    exact absurd rfl hstage
  | idle | claiming _ =>
    have hclaimed : ∀ slot, x.marketEventBuffer.consumer ≠ .claimed slot := by
      rw [hconsumer]
      rintro slot ⟨⟩
    have hobtained := x.marketEventBuffer.consumerStep_obtained hclaimed
    have hnext : x.marketEventBuffer.consumerStep.consumer.stage ≠ .taken := by
      simp only [LazyRingMachine.consumerStep, hconsumer]
      first
        | rintro ⟨⟩
        | split <;> rintro ⟨⟩
    refine ⟨{ x with marketEventBuffer := x.marketEventBuffer.consumerStep }, ?_, h.consume hclaimed ?_,
      ⟨rfl, rfl, rfl⟩, Or.inl ⟨rfl, rfl⟩⟩
    · simp only [simulatorStep, hpc, hconsumer]
    · simp only [Stands, hpc, hobtained]
      exact ⟨hnext, hidle, hlength, hbroadcast⟩

theorem Sound.simulate_caching (h : x.Sound feed) {message : EncodedMessage} (hpc : x.simulator = .caching message) :
    ∃ x', x.simulatorStep feed = some x' ∧ x'.Sound feed ∧ Simulates feed x x' := by
  have hat := h.simulator
  rw [hpc] at hat
  obtain ⟨hstage, hidle, hlength, hbroadcast, hmakes⟩ := hat
  by_cases hconsumer : x.marketEventBuffer.consumer = .idle
  · -- the event has been consumed, and the put begins
    have hput := CacheMachine.step_put hidle message
    have hcount := h.count
    rw [hidle, Bool.toNat_false, Nat.add_zero] at hcount
    have hcompleted : (x.retransmitCache.step (.put message)).completed = x.retransmitCache.completed := by
      rw [hput]
      rfl
    have hitems : (x.retransmitCache.step (.put message)).items = x.retransmitCache.items ++ [message] := by rw [hput]
    refine ⟨{ x with retransmitCache := x.retransmitCache.step (.put message), simulator := .putting message },
      by simp only [simulatorStep, hpc, hconsumer], ?_, ⟨rfl, rfl, rfl⟩, Or.inl ⟨?_, rfl⟩⟩
    · refine ⟨h.ring, h.published, h.written, h.sequencer,
        h.cache.imp (fun hopening => hopening.put message) (fun hsound => hsound.put message), ?_, ?_, ?_, ?_, ?_⟩
      · intro k m hm
        rw [hitems] at hm
        rcases Nat.lt_or_ge k x.retransmitCache.items.length with hlt | hge
        · rw [List.getElem?_append_left hlt] at hm
          exact h.items k m hm
        · have hk := (List.getElem?_eq_some_iff.mp hm).1
          rw [List.length_append, List.length_singleton] at hk
          obtain rfl : k = x.retransmitCache.items.length := by omega
          rw [List.getElem?_concat_length] at hm
          cases hm
          exact hmakes
      · refine ⟨hconsumer, by rw [hput]; rfl, ?_, by rw [hitems, hbroadcast]⟩
        rw [hitems, List.length_append, List.length_singleton]
        exact hlength
      · rw [hcompleted]
        exact h.requests
      · rw [hcompleted]
        exact h.serving
      · rw [hput]
        exact h.lookup
    · rw [cached, cached, hcompleted, hitems, List.take_append_of_le_length hcount.ge]
  · have htaken := hstage.resolve_left hconsumer
    have hclaimed : ∀ slot, x.marketEventBuffer.consumer ≠ .claimed slot := by
      intro slot hslot
      rw [hslot] at htaken
      cases htaken
    have hobtained := x.marketEventBuffer.consumerStep_obtained hclaimed
    refine ⟨{ x with marketEventBuffer := x.marketEventBuffer.consumerStep }, ?_, h.consume hclaimed ?_,
      ⟨rfl, rfl, rfl⟩, Or.inl ⟨rfl, rfl⟩⟩
    · simp only [simulatorStep, hpc]
    · simp only [Stands, hpc, hobtained]
      exact ⟨x.marketEventBuffer.consumerStep_taken htaken, hidle, hlength, hbroadcast, hmakes⟩

theorem Sound.simulate_putting (h : x.Sound feed) (hfeed : feed.events.length < 2 ^ 32 - 1) {message : EncodedMessage}
    (hpc : x.simulator = .putting message) :
    ∃ x', x.simulatorStep feed = some x' ∧ x'.Sound feed ∧ Simulates feed x x' := by
  have hat := h.simulator
  rw [hpc] at hat
  obtain ⟨hconsumer, hbusy, hlength, hput⟩ := hat
  have hbound := h.few_items hfeed
  have hcount := h.count
  obtain ⟨hitems, hreaders, -, hle⟩ := x.retransmitCache.step_write (by omega)
  have hcache : (x.retransmitCache.step .write).Opening ∨ (x.retransmitCache.step .write).Sound := by
    rcases h.cache with hopening | hsound
    · exact hopening.write
    · exact Or.inr (hsound.step hbound .write)
  have hsound : ({ x with
      retransmitCache := x.retransmitCache.step .write
      simulator := if (x.retransmitCache.step .write).writer.busy then .putting message else .broadcasting message } :
      ExchangeSimulator).Sound feed := by
    refine ⟨h.ring, h.published, h.written, h.sequencer, hcache, hitems ▸ h.items, ?_,
      fun request hrequest => (h.requests request hrequest).mono hle,
      fun request hrequest => (h.serving request hrequest).mono hle, ?_⟩
    · by_cases hstill : (x.retransmitCache.step .write).writer.busy = true
      · simp only [Stands, hstill, if_true, hitems]
        exact ⟨hconsumer, trivial, hlength, hput⟩
      · simp only [Stands, hstill, hitems]
        exact ⟨hconsumer, by simp, hlength, hput⟩
    · rw [hreaders]
      exact h.lookup
  refine ⟨_, by simp only [simulatorStep, hpc], hsound, ⟨rfl, rfl, rfl⟩, ?_⟩
  have hcached := h.cached_of_busy hbusy hput
  by_cases hstill : (x.retransmitCache.step .write).writer.busy = true
  · have hcached' := hsound.cached_of_busy hstill (hput.trans hitems.symm)
    exact Or.inl ⟨hcached'.trans hcached.symm, rfl⟩
  · have hcached' := hsound.cached_of_idle (Bool.eq_false_iff.mpr hstill)
    refine Or.inr (Or.inl ⟨message, h.items _ _ ?_, ?_, rfl⟩)
    · rw [hcached, ← hput, List.getElem?_concat_length]
    · rw [hcached', hcached, hput, ← hitems]

theorem Sound.simulate_broadcasting (h : x.Sound feed) {message : EncodedMessage}
    (hpc : x.simulator = .broadcasting message) :
    ∃ x', x.simulatorStep feed = some x' ∧ x'.Sound feed ∧ Simulates feed x x' := by
  have hat := h.simulator
  rw [hpc] at hat
  obtain ⟨hconsumer, hidle, hlength, hput⟩ := hat
  refine ⟨{ x with broadcast := x.broadcast ++ [message], simulator := .waiting },
    by simp only [simulatorStep, hpc], ?_, ⟨rfl, rfl, rfl⟩, Or.inr (Or.inr ⟨rfl, ?_⟩)⟩
  · refine ⟨h.ring, h.published, h.written, h.sequencer, h.cache, h.items, ⟨?_, hidle, hlength, hput⟩, h.requests,
      h.serving, h.lookup⟩
    rw [hconsumer]
    rintro ⟨⟩
  · rw [List.length_append, List.length_singleton]

theorem Sound.simulatorStep (h : x.Sound feed) (hfeed : feed.events.length < 2 ^ 32 - 1) :
    ∃ x', x.simulatorStep feed = some x' ∧ x'.Sound feed ∧ Simulates feed x x' := by
  cases hpc : x.simulator with
  | waiting => exact h.simulate_waiting hpc
  | caching message => exact h.simulate_caching hpc
  | putting message => exact h.simulate_putting hfeed hpc
  | broadcasting message => exact h.simulate_broadcasting hpc

end ExchangeSimulator

end HftPipeline
