import HftPipeline.Lib.Stuttering
import HftPipeline.EventualReads
import HftPipeline.ServerConnection

/-!
# The trading system

The exchange simulator with its threads and the pipeline behind it: what the listener receives has
been broadcast, and what the retransmit client receives has come over the connection to the
server. In the pipeline the exchange is a list of messages; here it is the one that the lookups and puts
of the retransmit cache keep. Whatever the threads do, the pipeline could have done it.
-/
namespace HftPipeline

/-- The pipeline's own exchange does nothing here. -/
structure TradingSystem where
  exchange : ExchangeSimulator
  pipeline : Pipeline

/-- A step of one of the threads of the exchange simulator, or a turn of the pipeline. -/
inductive TradingTurn where
  | generator
  | simulator
  | server
  | pipeline (turn : PipelineTurn)

namespace TradingSystem

variable [StdHash Price] [StdHash ID]

def init (exchangeEvents : Nat → MarketEvent) (slots : Nat → EncodedMessage) (packets : Nat → List UInt8)
    (events : Nat → MarketEvent) (bbo : OrderSnapshot) : TradingSystem :=
  ⟨.init exchangeEvents slots, .init packets events bbo⟩

def withHandler (p : TradingSystem) (handler : System) : TradingSystem :=
  { p with pipeline := { p.pipeline with handler := handler } }

/-- UDP may deliver a message that was broadcast at any time, again or never. -/
def arrive (p : TradingSystem) (packet : Nat) (slot : EncodedMessage) : TradingSystem :=
  match p.pipeline.handler.listener, p.exchange.broadcast[packet]? with
  | .receiving, some message => p.withHandler { p.pipeline.handler with
      listener := .claiming
      udpPacketBuffer := p.pipeline.handler.udpPacketBuffer ++ [slot.receiveDatagram message.message]
      received := p.pipeline.handler.received ++ [message.header.sequenceNumber] }
  | _, _ => p

/-- The client sends its request to the server, and receives what the server sends. A connection that
the server has closed is an error. -/
def clientStep (p : TradingSystem) (memory : EncodedMessage) : Option TradingSystem :=
  let s := p.pipeline.handler
  match s.client with
  | .sending request =>
    let exchange := { p.exchange with requests := p.exchange.requests ++ [request] }
    some { p.withHandler { s with client := System.nextPacket request } with exchange := exchange }
  | .receiving request =>
    match p.exchange.stream with
    | [] => some p
    | received :: stream =>
      let p := { p with exchange := { p.exchange with stream := stream } }
      match received with
      | none => some (p.withHandler { s.report .retransmitServer with client := .stopped })
      | some message => do
        match ← memory.receiveStream message.message with
        | .error error => return p.withHandler { s.report error with client := .stopped }
        | .ok newMessage =>
          return p.withHandler { s with
            client := .writing request newMessage
            received := s.received ++ [newMessage.header.sequenceNumber] }
  | .waiting | .writing _ _ | .stopped => (s.clientStep memory).map p.withHandler

def pipelineStep (feed : Feed) (p : TradingSystem) : PipelineTurn → Option TradingSystem
  | .handler .sequence | .handler .broadcast => some p
  | .handler (.arrive packet slot) => some (p.arrive packet slot)
  | .handler (.client memory) => p.clientStep memory
  | turn => (p.pipeline.step feed turn).map fun pipeline => { p with pipeline := pipeline }

def step (feed : Feed) (p : TradingSystem) : TradingTurn → Option TradingSystem
  | .generator => some { p with exchange := p.exchange.generatorStep feed }
  | .simulator => (p.exchange.simulatorStep feed).map fun exchange => { p with exchange := exchange }
  | .server => some { p with exchange := p.exchange.serverStep }
  | .pipeline turn => p.pipelineStep feed turn

def run (feed : Feed) (p : TradingSystem) (turns : List TradingTurn) : Option TradingSystem :=
  turns.foldlM (step feed) p

end TradingSystem

/-! ## The exchange as the pipeline sees it -/

/-- The next number, the messages in the cache, and how many have been broadcast. -/
def System.withExchange (s : System) (x : ExchangeSimulator) : System :=
  { s with
    sequencer := ⟨UInt64.ofNat (x.cached.length + 1)⟩
    retransmitCache := x.cached
    broadcast := x.broadcast.length }

def Pipeline.withExchange (m : Pipeline) (x : ExchangeSimulator) : Pipeline :=
  { m with handler := m.handler.withExchange x }

def TradingSystem.view (p : TradingSystem) : Pipeline := p.pipeline.withExchange p.exchange

namespace System

variable {s : System} {x : ExchangeSimulator}

theorem listenerStep_withExchange : (s.withExchange x).listenerStep = s.listenerStep.withExchange x := by
  cases hpc : s.listener with
  | claiming =>
    simp only [listenerStep, withExchange, hpc]
    split <;> rfl
  | receiving => simp only [listenerStep, withExchange, hpc]
  | stopped => simp only [listenerStep, withExchange, hpc]

theorem handlerStep_withExchange :
    (s.withExchange x).handlerStep = s.handlerStep.map fun s => s.withExchange x := by
  cases hpc : s.handler with
  | waiting =>
    cases hslots : s.udpPacketBuffer with
    | nil => simp only [handlerStep, withExchange, hpc, hslots, Option.map_some]
    | cons slot slots => simp only [handlerStep, withExchange, hpc, hslots, Option.map_some]
  | pushing request =>
    simp only [handlerStep, withExchange, hpc]
    split <;> rfl
  | writing =>
    simp only [handlerStep, withExchange, hpc, Option.bind_eq_bind, Option.map_bind, Function.comp_def]
    rfl
  | consuming result =>
    cases result with
    | error error => simp only [handlerStep, withExchange, hpc, Option.map_some, report]
    | ok _ => simp only [handlerStep, withExchange, hpc, Option.map_some]
  | stopped => simp only [handlerStep, withExchange, hpc, Option.map_some]

/-- Only while it receives a packet does the client look at the cache. -/
theorem clientStep_withExchange (hpc : ∀ request, s.client ≠ .receiving request) (memory : EncodedMessage) :
    (s.withExchange x).clientStep memory = (s.clientStep memory).map fun s => s.withExchange x := by
  cases hclient : s.client with
  | waiting =>
    cases hrequests : s.retransmitRequestBuffer with
    | nil => simp only [clientStep, withExchange, hclient, hrequests, Option.map_some]
    | cons request requests => simp only [clientStep, withExchange, hclient, hrequests, Option.map_some]
  | sending request => simp only [clientStep, withExchange, hclient, Option.map_some]
  | receiving request => exact absurd hclient (hpc request)
  | writing request newMessage =>
    cases hpayload : newMessage.getPayloadRef with
    | none =>
      simp only [clientStep, withExchange, hclient, hpayload, Option.bind_eq_bind, Option.bind_none,
        Option.map_none]
    | some payload =>
      simp only [clientStep, withExchange, hclient, hpayload, Option.bind_eq_bind, Option.bind_some]
      split
      · simp only [Option.map_bind, Function.comp_def]
        congr 1
        funext written
        split <;> rfl
      · rfl
  | stopped => simp only [clientStep, withExchange, hclient, Option.map_some]

theorem publisherStep_withExchange :
    (s.withExchange x).publisherStep = s.publisherStep.map fun s => s.withExchange x := by
  cases hpc : s.publisher with
  | waiting =>
    simp only [publisherStep, withExchange, hpc]
    split <;> simp only [Option.map_some, hpc]
  | publishing item =>
    simp only [publisherStep, withExchange, hpc, Option.bind_eq_bind, Option.map_bind, Function.comp_def]
    rfl

theorem handlerStep_client {s' : System} (hstep : s.handlerStep = some s') : s'.client = s.client := by
  rw [handlerStep] at hstep
  split at hstep
  · split at hstep <;> cases hstep <;> rfl
  · split at hstep <;> cases hstep <;> rfl
  · obtain ⟨newPacket, -, hstep⟩ := Option.bind_eq_some_iff.mp hstep
    obtain ⟨payload, -, hstep⟩ := Option.bind_eq_some_iff.mp hstep
    obtain ⟨⟨result, b⟩, -, hreturn⟩ := Option.bind_eq_some_iff.mp hstep
    cases hreturn
    rfl
  · split at hstep <;> cases hstep <;> rfl
  · cases hstep
    rfl

theorem publisherStep_client {s' : System} (hstep : s.publisherStep = some s') : s'.client = s.client := by
  simp only [publisherStep] at hstep
  split at hstep
  · split at hstep <;> cases hstep <;> rfl
  · obtain ⟨event, -, hreturn⟩ := Option.bind_eq_some_iff.mp hstep
    cases hreturn
    rfl

theorem clientError_withExchange (error : HandlerError) :
    (s.withExchange x).clientError error = (s.clientError error).withExchange x := by
  cases hpc : s.client <;> simp only [clientError, withExchange, hpc, report]

end System

/-- A turn in which neither the exchange nor the network between it and the handler has a part. -/
def PipelineTurn.Apart : PipelineTurn → Prop
  | .handler .sequence | .handler .broadcast | .handler (.arrive _ _) | .handler (.client _) => False
  | .handler .listener | .handler .listenerError | .handler .handler | .handler (.clientError _)
  | .handler .publisher | .engine | .trader _ _ | .report _ => True

/-- Such a turn does not move the retransmit client, which may be stopped by an error. -/
theorem System.step_client {s s' : System} {feed : Feed} {pick : Pick} (hturn : (PipelineTurn.handler pick).Apart)
    (hstep : s.step feed pick = some s') : s'.client = s.client ∨ s'.client = .stopped := by
  cases pick with
  | sequence | broadcast | arrive _ _ | client _ => exact hturn.elim
  | listener =>
    cases hstep
    rw [listenerStep]
    split
    · split <;> exact Or.inl rfl
    · exact Or.inl rfl
    · exact Or.inl rfl
  | listenerError =>
    rw [step] at hstep
    split at hstep <;> cases hstep <;> exact Or.inl rfl
  | handler => exact Or.inl (handlerStep_client hstep)
  | clientError error =>
    cases hstep
    rw [clientError]
    split
    · exact Or.inr rfl
    · exact Or.inr rfl
    · exact Or.inl rfl
    · exact Or.inl rfl
    · exact Or.inl rfl
  | publisher => exact Or.inl (publisherStep_client hstep)

namespace Pipeline

variable [StdHash Price] [StdHash ID] {m m' : Pipeline} {x : ExchangeSimulator} {feed : Feed}

section

omit [StdHash Price] [StdHash ID]

theorem publisherStep_withExchange :
    (m.withExchange x).publisherStep = m.publisherStep.map fun m => m.withExchange x := by
  have hstep : (m.handler.withExchange x).publisherStep = _ := System.publisherStep_withExchange
  have hsame : (m.handler.withExchange x).publisher = m.handler.publisher := rfl
  cases hpc : m.handler.publisher with
  | waiting =>
    simp only [publisherStep, withExchange, hsame, hpc, hstep, Option.map_map]
    rfl
  | publishing item =>
    simp only [publisherStep, withExchange, hsame, hpc, hstep, Option.bind_eq_bind, Option.map_bind,
      Function.comp_def]
    congr 1
    funext event
    split
    · rw [Option.map_map, Option.map_map]
      rfl
    · rfl

end

theorem engineStep_withExchange :
    (m.withExchange x).engineStep = m.engineStep.map fun m => m.withExchange x := by
  simp only [engineStep, withExchange]
  split
  · split
    · rw [Option.bind_eq_bind, Option.map_bind]
      rfl
    · rfl
  · rfl

section

omit [StdHash Price] [StdHash ID]

theorem traderStep_withExchange (risk : RiskData) (room : Bool) :
    (m.withExchange x).traderStep risk room = (m.traderStep risk room).map fun m => m.withExchange x := by
  simp only [traderStep, withExchange]
  split
  · split
    · rfl
    · split
      · rw [Option.bind_eq_bind, Option.map_bind]
        congr 1
        funext staged
        cases staged <;> rfl
      · rfl
  · split
    · rfl
    · rw [Option.bind_eq_bind, Option.map_bind]
      congr 1
      funext round
      cases round <;> rfl
  · rfl

theorem reportStep_withExchange (update : OrderFillUpdate) :
    (m.withExchange x).reportStep update = (m.reportStep update).map fun m => m.withExchange x := by
  simp only [reportStep, withExchange]
  split
  · rw [Option.bind_eq_bind, Option.map_bind]
    congr 1
    funext staged
    cases staged <;> rfl
  · rfl

end

/-- The rest of the pipeline does not see the exchange. -/
theorem step_withExchange {turn : PipelineTurn} (hturn : turn.Apart) :
    (m.withExchange x).step feed turn = (m.step feed turn).map fun m => m.withExchange x := by
  cases turn with
  | handler pick =>
    cases pick with
    | sequence | broadcast | arrive _ _ | client _ => exact hturn.elim
    | publisher => exact publisherStep_withExchange
    | listener =>
      have hstep : (m.handler.withExchange x).listenerStep = _ := System.listenerStep_withExchange
      simp only [step, System.step, withExchange, hstep, Option.map_some]
    | listenerError =>
      have hsame : (m.handler.withExchange x).listener = m.handler.listener := rfl
      simp only [step, System.step, withExchange, hsame]
      split <;> rfl
    | handler =>
      have hstep : (m.handler.withExchange x).handlerStep = _ := System.handlerStep_withExchange
      simp only [step, System.step, withExchange, hstep, Option.map_map]
      rfl
    | clientError error =>
      have hstep : (m.handler.withExchange x).clientError error = _ := System.clientError_withExchange error
      simp only [step, System.step, withExchange, hstep, Option.map_some]
  | engine => exact engineStep_withExchange
  | trader risk room => exact traderStep_withExchange risk room
  | report update => exact reportStep_withExchange update

theorem step_client {turn : PipelineTurn} (hturn : turn.Apart) (hstep : m.step feed turn = some m') :
    m'.handler.client = m.handler.client ∨ m'.handler.client = .stopped := by
  rcases step_handler hstep with hsame | ⟨pick, rfl, hpick⟩
  · exact Or.inl (by rw [hsame])
  · exact System.step_client hturn hpick

end Pipeline

end HftPipeline
