import HftPipeline.TradingSystem

/-!
# Runs of the trading system

A step of the trading system is a step of the pipeline behind the exchange it sees, or one that it
does not see. So what is proved of the runs of the pipeline holds of the trading system.
-/
namespace HftPipeline

namespace ExchangeSimulator

variable {x : ExchangeSimulator}

/-- After the loop test of `handle_request` the client waits for the next packet or for nothing. -/
theorem Connection.nextPacket {request : RetransmitRequest} (h : x.Owes request) :
    x.Connection (System.nextPacket request) := by
  rw [System.nextPacket]
  split
  · exact h
  · rename_i hdone
    exact h.drained hdone

theorem Connection.clientStep {s s' : System} (h : x.Connection s.client) {memory : EncodedMessage}
    (hsending : ∀ request, s.client ≠ .sending request) (hreceiving : ∀ request, s.client ≠ .receiving request)
    (hstep : s.clientStep memory = some s') : x.Connection s'.client := by
  cases hpc : s.client with
  | waiting =>
    rw [hpc] at h
    simp only [System.clientStep, hpc] at hstep
    split at hstep
    · cases hstep
      rw [hpc]
      exact h
    · cases hstep
      exact h
  | sending request => exact absurd hpc (hsending request)
  | receiving request => exact absurd hpc (hreceiving request)
  | writing request newMessage =>
    rw [hpc] at h
    simp only [System.clientStep, hpc] at hstep
    obtain ⟨payload, -, hstep⟩ := Option.bind_eq_some_iff.mp hstep
    split at hstep
    · obtain ⟨⟨result, b⟩, -, hstep⟩ := Option.bind_eq_some_iff.mp hstep
      simp only at hstep
      split at hstep
      · cases hstep
        trivial
      · cases hstep
        exact nextPacket h
    · cases hstep
  | stopped =>
    simp only [System.clientStep, hpc] at hstep
    cases hstep
    rw [hpc]
    trivial

end ExchangeSimulator

namespace TradingSystem

variable [StdHash Price] [StdHash ID] {p p' : TradingSystem} {feed : Feed}

/-- The trader's step overflows. -/
def Overflows (p : TradingSystem) : TradingTurn → Prop
  | .generator | .simulator | .server => False
  | .pipeline turn => p.pipeline.Overflows turn

/-- A step of the run overflows. -/
def OverflowsIn (feed : Feed) (p : TradingSystem) (turns : List TradingTurn) : Prop :=
  Stuttering.StuckIn (step feed) Overflows p turns

/-! ## The invariant -/

structure Sound (feed : Feed) (p : TradingSystem) : Prop where
  exchange : p.exchange.Sound feed
  connection : p.exchange.Connection p.pipeline.handler.client
  follows : p.view.Follows feed
  served : p.view.handler.Served

/-- A step of the pipeline in the view, or none. -/
def Moves (feed : Feed) (p p' : TradingSystem) : Prop :=
  p'.view = p.view ∨ ∃ turn, p.view.step feed turn = some p'.view

theorem sound_init (exchangeEvents : Nat → MarketEvent) (slots : Nat → EncodedMessage) (packets : Nat → List UInt8)
    (events : Nat → MarketEvent) (bbo : OrderSnapshot) :
    (init exchangeEvents slots packets events bbo).Sound feed where
  exchange := ExchangeSimulator.sound_init exchangeEvents slots
  connection := ⟨by simp [init, ExchangeSimulator.init], by rintro request ⟨⟩, rfl⟩
  follows := Pipeline.follows_init packets events bbo
  served := System.init_served packets

/-- What the pipeline does keeps its invariants. -/
theorem Sound.of_moves (h : p.Sound feed) (hfeed : feed.Orderly) (hmoves : p.Moves feed p')
    (hexchange : p'.exchange.Sound feed) (hconnection : p'.exchange.Connection p'.pipeline.handler.client) :
    p'.Sound feed := by
  rcases hmoves with hsame | ⟨turn, hstep⟩
  · exact ⟨hexchange, hconnection, hsame ▸ h.follows, hsame ▸ h.served⟩
  · refine ⟨hexchange, hconnection, (Pipeline.sticks hfeed).keeps h.follows hstep, ?_⟩
    rcases Pipeline.step_handler hstep with hsame | ⟨pick, -, hpick⟩
    · rw [hsame]
      exact h.served
    · exact h.served.step h.follows.handler hpick

section

omit [StdHash Price] [StdHash ID]

theorem view_congr {x : ExchangeSimulator} (hcached : x.cached = p.exchange.cached)
    (hbroadcast : x.broadcast = p.exchange.broadcast) : ({ p with exchange := x } : TradingSystem).view = p.view := by
  rw [view, view, Pipeline.withExchange, Pipeline.withExchange, System.withExchange, System.withExchange, hcached,
    hbroadcast]

end

/-- What the client asks for is in the cache. -/
theorem Sound.within (h : p.Sound feed) {request : RetransmitRequest}
    (hrequested : p.pipeline.handler.Requested request) :
    request.Within p.exchange.retransmitCache.completed := by
  have hfirst := h.served.asks.requests request hrequested
  have hlast := h.follows.handler.requests request hrequested
  refine ⟨hfirst, hlast.trans ?_⟩
  rcases h.follows.handler.recent with hnone | ⟨number, hmem, hnumber⟩
  · rw [hnone]
    exact Nat.zero_le _
  · rw [← hnumber, ← h.exchange.length_cached]
    exact h.served.received number hmem

/-! ## The exchange -/

theorem Sound.generator (h : p.Sound feed) (hfeed : feed.Orderly) :
    ∃ p', p.step feed .generator = some p' ∧ p'.Sound feed ∧ p.Moves feed p' := by
  obtain ⟨hsame, hcached, hbroadcast⟩ := p.exchange.generatorStep_frame feed
  have hmoves : p.Moves feed { p with exchange := p.exchange.generatorStep feed } :=
    Or.inl (view_congr hcached hbroadcast)
  have hconnection := h.connection.of_same hsame (hcached ▸ List.prefix_refl _)
  exact ⟨_, rfl, h.of_moves hfeed hmoves h.exchange.generatorStep hconnection, hmoves⟩

theorem Sound.simulator (h : p.Sound feed) (hfeed : feed.Orderly) (hfew : feed.events.length < 2 ^ 32 - 1) :
    ∃ p', p.step feed .simulator = some p' ∧ p'.Sound feed ∧ p.Moves feed p' := by
  obtain ⟨x, hstep, hexchange, hsame, hmessages⟩ := h.exchange.simulatorStep hfew
  have hextends : p.exchange.cached <+: x.cached := by
    rcases hmessages with ⟨hcached, -⟩ | ⟨m, -, hcached, -⟩ | ⟨hcached, -⟩
    · rw [hcached]
    · rw [hcached]
      exact List.prefix_append _ _
    · rw [hcached]
  have hmoves : p.Moves feed { p with exchange := x } := by
    rcases hmessages with ⟨hcached, hbroadcast⟩ | ⟨m, ⟨event, hevent, hgenerate⟩, hcached, hbroadcast⟩ |
      ⟨hcached, hbroadcast⟩
    · exact Or.inl (view_congr hcached hbroadcast)
    · right
      refine ⟨.handler .sequence, ?_⟩
      simp only [Pipeline.step, System.step, view, Pipeline.withExchange, System.exchangeStep, System.withExchange,
        hevent, hgenerate, Option.bind_eq_bind, Option.bind_some]
      rw [hcached, hbroadcast, List.length_append, List.length_singleton]
      rfl
    · right
      refine ⟨.handler .broadcast, ?_⟩
      have hle := hexchange.broadcast_prefix.length_le
      rw [hcached, hbroadcast] at hle
      simp only [Pipeline.step, System.step, view, Pipeline.withExchange, System.withExchange, Option.map_some]
      rw [Nat.min_eq_left hle, hcached, hbroadcast]
  have hconnection := h.connection.of_same hsame hextends
  exact ⟨_, by rw [step, hstep]; rfl, h.of_moves hfeed hmoves hexchange hconnection, hmoves⟩

theorem Sound.server (h : p.Sound feed) (hfeed : feed.Orderly) (hfew : feed.events.length < 2 ^ 32 - 1) :
    ∃ p', p.step feed .server = some p' ∧ p'.Sound feed ∧ p.Moves feed p' := by
  obtain ⟨hexchange, hcached, hbroadcast, hanswers⟩ := h.exchange.serverStep hfew
  have hmoves : p.Moves feed { p with exchange := p.exchange.serverStep } := Or.inl (view_congr hcached hbroadcast)
  have hpos : ∀ request, p.pipeline.handler.client.request = some request → 1 ≤ request.firstPacket.toNat :=
    fun request hrequest => (h.within (Or.inr hrequest)).1
  have hconnection := h.connection.answers h.follows.handler.client hpos hcached hanswers
  exact ⟨_, rfl, h.of_moves hfeed hmoves hexchange hconnection, hmoves⟩

/-! ## The network -/

theorem Sound.arrive (h : p.Sound feed) (hfeed : feed.Orderly) (packet : Nat) (slot : EncodedMessage) :
    (p.arrive packet slot).Sound feed ∧ p.Moves feed (p.arrive packet slot) := by
  rw [TradingSystem.arrive]
  split
  · rename_i message hlistener hmessage
    have hlt := (List.getElem?_eq_some_iff.mp hmessage).1
    have hcached := VersionedCell.getElem?_of_prefix h.exchange.broadcast_prefix hmessage
    have hmoves : p.Moves feed (p.withHandler { p.pipeline.handler with
        listener := .claiming
        udpPacketBuffer := p.pipeline.handler.udpPacketBuffer ++ [slot.receiveDatagram message.message]
        received := p.pipeline.handler.received ++ [message.header.sequenceNumber] }) := by
      right
      refine ⟨.handler (.arrive packet slot), ?_⟩
      simp only [Pipeline.step, System.step, view, Pipeline.withExchange, System.withExchange, System.arrive, hlistener,
        if_pos hlt, hcached, Option.map_some]
      rfl
    exact ⟨h.of_moves hfeed hmoves h.exchange h.connection, hmoves⟩
  · exact ⟨h, Or.inl rfl⟩

/-! ## The retransmit client -/

/-- Before it has a request, or with a packet to write. -/
theorem Sound.client_apart (h : p.Sound feed) (hfeed : feed.Orderly) (memory : EncodedMessage)
    (hsending : ∀ request, p.pipeline.handler.client ≠ .sending request)
    (hreceiving : ∀ request, p.pipeline.handler.client ≠ .receiving request) :
    ∃ p', (p.pipeline.handler.clientStep memory).map p.withHandler = some p' ∧ p'.Sound feed ∧ p.Moves feed p' := by
  obtain ⟨s', hstep', -⟩ := h.follows.handler.clientStep memory
  have hview : p.view.handler.clientStep memory = _ :=
    System.clientStep_withExchange (x := p.exchange) hreceiving memory
  rw [hstep'] at hview
  obtain ⟨s, hstep, rfl⟩ := Option.map_eq_some_iff.mp hview.symm
  have hmoves : p.Moves feed (p.withHandler s) := by
    right
    refine ⟨.handler (.client memory), ?_⟩
    simp only [Pipeline.step, System.step, hstep', Option.map_some]
    rfl
  have hconnection := h.connection.clientStep hsending hreceiving hstep
  exact ⟨p.withHandler s, by rw [hstep]; rfl, h.of_moves hfeed hmoves h.exchange hconnection, hmoves⟩

/-- The request goes to the server. -/
theorem Sound.client_send (h : p.Sound feed) (hfeed : feed.Orderly) (memory : EncodedMessage)
    {request : RetransmitRequest} (hpc : p.pipeline.handler.client = .sending request) :
    ∃ p', p.clientStep memory = some p' ∧ p'.Sound feed ∧ p.Moves feed p' := by
  have hconnection := h.connection
  rw [hpc] at hconnection
  have hwithin : ∀ r ∈ p.exchange.requests ++ [request], r.Within p.exchange.retransmitCache.completed := by
    intro r hr
    rcases List.mem_append.mp hr with hold | hnew
    · exact h.exchange.requests r hold
    · rw [List.mem_singleton.mp hnew]
      exact h.within (Or.inr (by rw [hpc]; rfl))
  have hexchange : ({ p.exchange with requests := p.exchange.requests ++ [request] } : ExchangeSimulator).Sound feed :=
    (h.exchange.withServer h.exchange.cache ⟨rfl, rfl, rfl⟩ hwithin h.exchange.serving h.exchange.lookup).1
  have hmoves : p.Moves feed { p.withHandler { p.pipeline.handler with client := System.nextPacket request } with
      exchange := { p.exchange with requests := p.exchange.requests ++ [request] } } := by
    right
    refine ⟨.handler (.client memory), ?_⟩
    simp only [Pipeline.step, System.step, view, Pipeline.withExchange, System.withExchange, System.clientStep, hpc,
      Option.map_some]
    rfl
  refine ⟨_, ?_, h.of_moves hfeed hmoves hexchange (ExchangeSimulator.Connection.nextPacket (hconnection.ask request)),
    hmoves⟩
  simp only [clientStep, hpc]

/-- The next packet has come, or the server has closed the connection. -/
theorem Sound.client_receive (h : p.Sound feed) (hfeed : feed.Orderly) (memory : EncodedMessage)
    {request : RetransmitRequest} (hpc : p.pipeline.handler.client = .receiving request) :
    ∃ p', p.clientStep memory = some p' ∧ p'.Sound feed ∧ p.Moves feed p' := by
  have hconnection := h.connection
  rw [hpc] at hconnection
  have howes : p.exchange.Owes request := hconnection
  have hwithin : request.Within p.exchange.retransmitCache.completed := h.within (Or.inr (by rw [hpc]; rfl))
  have hopen : p.pipeline.handler.client.At feed (p.pipeline.handler.errors ≠ []) := h.follows.handler.client
  rw [hpc] at hopen
  cases hstream : p.exchange.stream with
  | nil =>
    refine ⟨p, ?_, h, Or.inl rfl⟩
    simp only [clientStep, hpc, hstream]
  | cons received stream =>
    have hexchange : ({ p.exchange with stream := stream } : ExchangeSimulator).Sound feed :=
      (h.exchange.withServer h.exchange.cache ⟨rfl, rfl, rfl⟩ h.exchange.requests h.exchange.serving
        h.exchange.lookup).1
    cases received with
    | none =>
      have hmoves : p.Moves feed { p.withHandler { p.pipeline.handler.report .retransmitServer with client := .stopped }
          with exchange := { p.exchange with stream := stream } } := by
        right
        refine ⟨.handler (.clientError .retransmitServer), ?_⟩
        simp only [Pipeline.step, System.step, view, Pipeline.withExchange, System.withExchange,
          System.clientError, hpc, Option.map_some]
        rfl
      refine ⟨_, ?_, h.of_moves hfeed hmoves hexchange trivial, hmoves⟩
      simp only [clientStep, hpc, hstream]
      rfl
    | some message =>
      obtain ⟨hcached, howes'⟩ := howes.receive hwithin.1 hopen hstream
      obtain ⟨newMessage, hreceived, -⟩ := (h.exchange.cached_makes hcached).isPacket.receiveStream memory
      have hmoves : p.Moves feed { p.withHandler { p.pipeline.handler with
          client := .writing request newMessage
          received := p.pipeline.handler.received ++ [newMessage.header.sequenceNumber] }
          with exchange := { p.exchange with stream := stream } } := by
        right
        refine ⟨.handler (.client memory), ?_⟩
        have hfound : p.view.handler.cached request.firstPacket = some message := by
          rw [System.cached, if_neg]
          · exact hcached
          · intro hzero
            have hpos := hwithin.1
            rw [hzero] at hpos
            exact absurd hpos (by decide)
        have hclient : p.view.handler.client = .receiving request := hpc
        simp only [Pipeline.step, System.step, System.clientStep, hclient, hfound, hreceived, Option.bind_eq_bind,
          Option.bind_some]
        rfl
      refine ⟨_, ?_, h.of_moves hfeed hmoves hexchange howes', hmoves⟩
      simp only [clientStep, hpc, hstream, hreceived, Option.bind_eq_bind, Option.bind_some]
      rfl

theorem Sound.client (h : p.Sound feed) (hfeed : feed.Orderly) (memory : EncodedMessage) :
    ∃ p', p.clientStep memory = some p' ∧ p'.Sound feed ∧ p.Moves feed p' := by
  cases hpc : p.pipeline.handler.client with
  | sending request => exact h.client_send hfeed memory hpc
  | receiving request => exact h.client_receive hfeed memory hpc
  | waiting | writing _ _ | stopped =>
    obtain ⟨p', hstep, hsound⟩ := h.client_apart hfeed memory (by rw [hpc]; rintro request ⟨⟩)
      (by rw [hpc]; rintro request ⟨⟩)
    exact ⟨p', by simp only [clientStep, hpc]; exact hstep, hsound⟩

/-! ## Runs -/

theorem pipelineStep_apart {turn : PipelineTurn} (hturn : turn.Apart) :
    p.pipelineStep feed turn = (p.pipeline.step feed turn).map fun pipeline => { p with pipeline := pipeline } := by
  cases turn with
  | handler pick =>
    cases pick with
    | sequence | broadcast | arrive _ _ | client _ => exact hturn.elim
    | listener | listenerError | handler | clientError _ | publisher => rfl
  | engine | trader _ _ | report _ => rfl

/-- The rest of the pipeline goes on by itself. -/
theorem Sound.apart (h : p.Sound feed) (hfeed : feed.Orderly) {turn : PipelineTurn} (hturn : turn.Apart)
    (hfits : ¬ p.pipeline.Overflows turn) :
    ∃ p', p.step feed (.pipeline turn) = some p' ∧ p'.Sound feed ∧ p.Moves feed p' := by
  have hfits' : ¬ p.view.Overflows turn := hfits
  obtain ⟨m', hstep', -⟩ := h.follows.step hfeed hfits'
  have hview : p.view.step feed turn = _ := Pipeline.step_withExchange (x := p.exchange) hturn
  rw [hstep'] at hview
  obtain ⟨m, hstep, rfl⟩ := Option.map_eq_some_iff.mp hview.symm
  have hmoves : p.Moves feed { p with pipeline := m } := Or.inr ⟨turn, hstep'⟩
  have hconnection : p.exchange.Connection m.handler.client := by
    rcases Pipeline.step_client hturn hstep with hsame | hstopped
    · rw [hsame]
      exact h.connection
    · rw [hstopped]
      trivial
  refine ⟨{ p with pipeline := m }, ?_, h.of_moves hfeed hmoves h.exchange hconnection, hmoves⟩
  rw [step, pipelineStep_apart hturn, hstep]
  rfl

/-- Only the trader overflows, and it does not see the exchange. -/
theorem Overflows.step {turn : TradingTurn} (h : p.Overflows turn) : p.step feed turn = none := by
  cases turn with
  | generator | simulator | server => exact h.elim
  | pipeline turn =>
    have hnone : p.pipeline.step feed turn = none := Pipeline.Overflows.step h
    have hapart : turn.Apart := by
      cases turn with
      | handler pick => exact False.elim h
      | engine | trader _ _ | report _ => trivial
    rw [TradingSystem.step, pipelineStep_apart hapart, hnone]
    rfl

theorem Sound.step (h : p.Sound feed) (hfeed : feed.Orderly) (hfew : feed.events.length < 2 ^ 32 - 1)
    {turn : TradingTurn} (hfits : ¬ p.Overflows turn) :
    ∃ p', p.step feed turn = some p' ∧ p'.Sound feed ∧ p.Moves feed p' := by
  cases turn with
  | generator => exact h.generator hfeed
  | simulator => exact h.simulator hfeed hfew
  | server => exact h.server hfeed hfew
  | pipeline turn =>
    cases turn with
    | handler pick =>
      cases pick with
      | sequence | broadcast => exact ⟨p, rfl, h, Or.inl rfl⟩
      | arrive packet slot => exact ⟨_, rfl, h.arrive hfeed packet slot⟩
      | client memory => exact h.client hfeed memory
      | listener | listenerError | handler | clientError _ | publisher => exact h.apart hfeed trivial hfits
    | engine | trader _ _ | report _ => exact h.apart hfeed trivial hfits

/-- Steps have results where the trader does not overflow. -/
theorem sticks (hfeed : feed.Orderly) (hfew : feed.events.length < 2 ^ 32 - 1) :
    Stuttering.Sticks (step feed) Overflows (Sound feed) where
  stuck := fun _ _ hoverflows => hoverflows.step
  step := by
    intro p turn h hfits
    obtain ⟨p', hstep, hsound, -⟩ := h.step hfeed hfew hfits
    exact ⟨p', hstep, hsound⟩

theorem simulates (hfeed : feed.Orderly) (hfew : feed.events.length < 2 ^ 32 - 1) :
    Stuttering.Simulates (step feed) (Pipeline.step feed) view (Sound feed) := by
  intro p turn p' h hstep
  have hfits : ¬ p.Overflows turn := (sticks hfeed hfew).not_stuck hstep
  obtain ⟨p'', hstep', hsound, hmoves⟩ := h.step hfeed hfew hfits
  rw [hstep] at hstep'
  cases hstep'
  exact ⟨hsound, hmoves⟩

/-- The engine has executed no more events than there are messages in the cache. -/
theorem Sound.obtained_le (h : p.Sound feed) : p.pipeline.marketEvents.obtained.length ≤ p.exchange.cached.length := by
  have hobtained := h.follows.ring.safe.obtained_prefix.length_le
  have hpublished := h.follows.published
  have hposition := h.follows.handler.position.2.1
  have hat := h.follows.handler.publisher
  have hless : p.view.handler.published.length ≤ p.view.handler.mostRecent := by
    cases hpc : p.view.handler.publisher with
    | waiting =>
      rw [hpc] at hat
      have htake : p.view.handler.published = feed.events.take (p.view.handler.reorderBuffer.readerIndex - 1) := hat
      rw [htake, List.length_take]
      omega
    | publishing item =>
      rw [hpc] at hat
      obtain ⟨event, -, htake⟩ := hat
      have hlength := congrArg List.length htake
      rw [List.length_append, List.length_singleton, List.length_take] at hlength
      omega
  have hrecent : p.view.handler.mostRecent ≤ p.exchange.cached.length := by
    rcases h.follows.handler.recent with hnone | ⟨number, hmem, hnumber⟩
    · omega
    · rw [← hnumber]
      exact h.served.received number hmem
  rw [hpublished] at hobtained
  exact hobtained.trans (hless.trans hrecent)

/-- In every interleaving of the threads of the exchange simulator and of the pipeline, the network and
the fill reports: no step is undefined but one where the trader overflows, what the pipeline has
done it could have done behind a list of messages for an exchange, every message in the cache is
that of its event, and the strategy has seen best prices after more and more of these events. -/
theorem run_refines_pipeline (feed : Feed) (hfeed : feed.Orderly) (hfew : feed.events.length < 2 ^ 32 - 1)
    (exchangeEvents : Nat → MarketEvent) (slots : Nat → EncodedMessage) (packets : Nat → List UInt8)
    (events : Nat → MarketEvent) (bbo : OrderSnapshot) (turns : List TradingTurn) :
    ((init exchangeEvents slots packets events bbo).run feed turns = none ↔
      (init exchangeEvents slots packets events bbo).OverflowsIn feed turns) ∧
    ∀ p, (init exchangeEvents slots packets events bbo).run feed turns = some p →
      (∃ turns', (Pipeline.init packets events bbo).run feed turns' = some p.view) ∧
      p.exchange.broadcast <+: p.exchange.cached ∧ (∀ k m, p.exchange.cached[k]? = some m → feed.Makes k m) ∧
      ∃ stamps : List Nat, stamps.Pairwise (· < ·) ∧ (∀ n ∈ stamps, n ≤ p.exchange.cached.length) ∧
        p.pipeline.reads = stamps.map feed.top := by
  have h₀ : (init exchangeEvents slots packets events bbo).Sound feed := sound_init ..
  refine ⟨(sticks hfeed hfew).run_eq_none_iff h₀ turns, ?_⟩
  intro p hrun
  obtain ⟨h, turns', hrun'⟩ := (simulates hfeed hfew).run h₀ hrun
  obtain ⟨stamps, hincreasing, hbounded, hreads⟩ := h.follows.read_stamps
  exact ⟨⟨turns', hrun'⟩, h.exchange.broadcast_prefix, fun k m => h.exchange.cached_makes, stamps, hincreasing,
    fun n hn => (hbounded n hn).trans h.obtained_le, hreads⟩

end TradingSystem

section

attribute [local instance] priceHash idHash

def systemAtStart : TradingSystem :=
  .init (fun _ => ⟨⟨0, 0, 0, .buy⟩, .add⟩) (fun _ => blankMessage) (fun _ => []) (fun _ => ⟨⟨0, 0, 0, .buy⟩, .add⟩)
    ⟨⟨0, 0⟩, ⟨0, 0⟩⟩

/-- Both events are cached and broadcast. The second packet comes first, and the server looks the other
one up; the trader reads after each of the two events, and quotes after the second. -/
def fetchTurns : List TradingTurn :=
  let trader := fun n => List.replicate n (TradingTurn.pipeline (.trader ⟨0, 0, 0, 0, 1000, -1, 1, false⟩ true))
  let publisher := List.replicate 6 (TradingTurn.pipeline (.handler .publisher))
  let engine := List.replicate 8 (TradingTurn.pipeline .engine)
  let client := List.replicate 2 (TradingTurn.pipeline (.handler (.client blankMessage)))
  trader 3 ++ List.replicate 10 .generator ++ List.replicate 18 .simulator ++
    [.pipeline (.handler .listener), .pipeline (.handler (.arrive 1 blankMessage))] ++
    List.replicate 4 (.pipeline (.handler .handler)) ++ client ++ List.replicate 6 .server ++ client ++
    publisher ++ engine ++ trader 4 ++ publisher ++ engine ++ trader 12

theorem run_fetchTurns :
    (systemAtStart.run twoOrders fetchTurns).map
      (fun p => (p.exchange.cached.length, p.pipeline.handler.received, p.pipeline.trader.sent)) =
      some (2, [2, 1], [⟨1, 101, 75, .buy⟩, ⟨2, 119, 75, .sell⟩]) := by
  decide +kernel

theorem run_refines_pipeline_fetchTurns :
    ∃ p, systemAtStart.run twoOrders fetchTurns = some p ∧ p.pipeline.handler.received = [2, 1] ∧
      p.pipeline.trader.sent = [⟨1, 101, 75, .buy⟩, ⟨2, 119, 75, .sell⟩] ∧
      ∃ stamps : List Nat, stamps.Pairwise (· < ·) ∧ (∀ n ∈ stamps, n ≤ 2) ∧
        p.pipeline.reads = stamps.map twoOrders.top := by
  obtain ⟨p, hrun, heval⟩ := Option.map_eq_some_iff.mp run_fetchTurns
  rw [Prod.mk.injEq, Prod.mk.injEq] at heval
  obtain ⟨hcached, hreceived, hsent⟩ := heval
  obtain ⟨-, -, -, hreads⟩ := (TradingSystem.run_refines_pipeline twoOrders twoOrders_orderly (by decide)
    (fun _ => ⟨⟨0, 0, 0, .buy⟩, .add⟩) (fun _ => blankMessage) (fun _ => []) (fun _ => ⟨⟨0, 0, 0, .buy⟩, .add⟩)
    ⟨⟨0, 0⟩, ⟨0, 0⟩⟩ fetchTurns).2 p hrun
  exact ⟨p, hrun, hreceived, hsent, hcached ▸ hreads⟩

end

end HftPipeline
