import HftPipeline.Submission
import HftPipeline.TopOfBook
import HftPipeline.Progress
import HftPipeline.RingBuffers
import HftPipeline.NextRead
import HftPipeline.DrainedBuffer
import HftPipeline.QuoteBounds
import HftPipeline.TraderArithmetic
import HftPipeline.Lib.Stuttering

/-!
# The pipeline

The market data handler, the ring buffer it publishes events to, the order book engine, the
sequence lock that the engine writes the best prices to, and the trader that waits for them.
A turn is a single step of one of the threads, as in the machines of the parts. The events
that the handler publishes are those that the engine finds in the ring buffer, and what
the trader gets from `wait_read_next` is what `get_orders` sees. A step without a result is
one where an assertion fails or a signed operation of the trader overflows.

The risk data and whether the trade buffer has room are what the turn says, and a thread
that a stop has ended is one that takes no more turns.
-/
namespace HftPipeline

open RestingBook

/-- `config::MARKET_EVENT_BUFFER_SIZE` of the handler, `2 ^ 15`. -/
abbrev MarketEventBuffer := LazyRingMachine MarketEvent ⟨15, by decide⟩

/-- `state` is that of the order book engine. The trader is in a call of `wait_read_next` or about
to start one while it is waiting, and in `place_new_orders` while it is placing. -/
structure Pipeline where
  handler : System
  marketEvents : MarketEventBuffer
  state : BookState
  publicBbo : SeqLockMachine Unit OrderSnapshot
  trader : Trader
  phase : Trader.Phase

/-- A step of the exchange, the network or a thread of the handler, of the engine, or of the
trader with what a round finds, or a fill report for the trader. -/
inductive PipelineTurn where
  | handler (pick : Pick)
  | engine
  | trader (risk : RiskData) (room : Bool)
  | report (update : OrderFillUpdate)

namespace Pipeline

variable [StdHash Price] [StdHash ID]

/-- What the buffers and the data of the lock hold at first. -/
def init (packets : Nat → List UInt8) (events : Nat → MarketEvent) (bbo : OrderSnapshot) : Pipeline where
  handler := System.init packets
  marketEvents := LazyRingMachine.init events
  state := .init
  publicBbo := SeqLockMachine.init bbo
  trader := .init
  phase := .waiting

/-- `MarketEventPublisher::run`: an item out of the reorder buffer, then a slot for it, its event
into the slot, and `publish`. -/
def publisherStep (m : Pipeline) : Option Pipeline :=
  match m.handler.publisher with
  | .waiting => m.handler.publisherStep.map fun handler => { m with handler := handler }
  | .publishing item => do
    let event ← BinaryProtocol.decode item
    let marketEvents := m.marketEvents.producerStep event
    match m.marketEvents.producer with
    | .publishing _ _ =>
      m.handler.publisherStep.map fun handler => { m with handler := handler, marketEvents := marketEvents }
    | _ => return { m with marketEvents := marketEvents }

/-- `OrderBookEngine::start`: a claimed event is executed, and a new best price is written
before the event is consumed. -/
def engineStep (m : Pipeline) : Option Pipeline :=
  match m.publicBbo.writer with
  | .idle =>
    let marketEvents := m.marketEvents.consumerStep
    match m.marketEvents.consumer with
    | .claimed slot => do
      let (state, status) ← m.state.execute (m.marketEvents.ring.buffer slot)
      let publicBbo :=
        if status = .newBestBid ∨ status = .newBestOffer then m.publicBbo.write state.snapshot else m.publicBbo
      return { m with marketEvents := marketEvents, state := state, publicBbo := publicBbo }
    | _ => some { m with marketEvents := marketEvents }
  | _ => some { m with publicBbo := m.publicBbo.writerStep }

/-- `Trader::start`, between the fill reports. -/
def traderStep (m : Pipeline) (risk : RiskData) (room : Bool) : Option Pipeline :=
  match m.phase with
  | .waiting =>
    match (m.publicBbo.readers ()).pc with
    | .idle => some { m with publicBbo := m.publicBbo.step (.call () .waitReadNext) }
    | _ =>
      let publicBbo := m.publicBbo.step (.reader ())
      match (SeqLock.readerStep m.publicBbo.lock (m.publicBbo.readers ())).2 with
      | some (_, some snapshot) => do
        let staged ← m.trader.checkedStage (.snapshot snapshot [])
        let trader ← staged
        return { m with publicBbo := publicBbo, trader := trader, phase := .placing }
      | _ => some { m with publicBbo := publicBbo }
  | .placing =>
    match m.trader.orderBuffer with
    | [] => some { m with phase := .waiting }
    | outbound :: rest => do
      let round ← m.trader.checkedPlaceOne outbound rest ⟨some risk, room⟩
      let (result, trader) ← round
      return { m with trader := trader, phase := if result = none then .placing else .failed }
  | .failed => some m

/-- `forward_oms_updates` comes before the next call of `wait_read_next`. -/
def reportStep (m : Pipeline) (update : OrderFillUpdate) : Option Pipeline :=
  match m.phase, (m.publicBbo.readers ()).pc with
  | .waiting, .idle => do
    let staged ← m.trader.checkedStage (.report update [])
    let trader ← staged
    return { m with trader := trader, phase := .placing }
  | _, _ => some m

def step (feed : Feed) (m : Pipeline) : PipelineTurn → Option Pipeline
  | .handler .publisher => m.publisherStep
  | .handler pick => (m.handler.step feed pick).map fun handler => { m with handler := handler }
  | .engine => m.engineStep
  | .trader risk room => m.traderStep risk room
  | .report update => m.reportStep update

def run (feed : Feed) (m : Pipeline) (turns : List PipelineTurn) : Option Pipeline := turns.foldlM (step feed) m

/-- The step of the trader has a signed operation whose result does not fit. -/
def Overflows (m : Pipeline) : PipelineTurn → Prop
  | .handler _ | .engine => False
  | .trader risk room =>
    match m.phase with
    | .waiting => ∃ method snapshot,
        (SeqLock.readerStep m.publicBbo.lock (m.publicBbo.readers ())).2 = some (method, some snapshot) ∧
          m.trader.checkedStage (.snapshot snapshot []) = none
    | .placing => ∃ outbound rest, m.trader.orderBuffer = outbound :: rest ∧
        m.trader.checkedPlaceOne outbound rest ⟨some risk, room⟩ = none
    | .failed => False
  | .report update => m.phase = .waiting ∧ (m.publicBbo.readers ()).pc = .idle ∧
      m.trader.checkedStage (.report update []) = none

/-- A step of the run overflows. -/
def OverflowsIn (feed : Feed) (m : Pipeline) (turns : List PipelineTurn) : Prop :=
  Stuttering.StuckIn (step feed) Overflows m turns

/-- The snapshots that the trader has got, in the order it got them. -/
def reads (m : Pipeline) : List OrderSnapshot := m.publicBbo.returns.filterMap (·.result)

end Pipeline

/-! ## What the other threads leave alone -/

namespace System

variable {s s' : System} {feed : Feed}

/-- An item that is being published has an event, and the step that publishes adds it. -/
theorem Invariant.publish (h : s.Invariant feed) {item : List UInt8} (hpc : s.publisher = .publishing item) :
    ∃ event, BinaryProtocol.decode item = some event ∧
      ∃ s', s.publisherStep = some s' ∧ s'.Invariant feed ∧ s'.published = s.published ++ [event] := by
  obtain ⟨s', hstep, h'⟩ := h.publisherStep
  rw [System.publisherStep, hpc] at hstep
  obtain ⟨event, hdecode, hreturn⟩ := Option.bind_eq_some_iff.mp hstep
  cases hreturn
  refine ⟨event, hdecode, _, ?_, h', rfl⟩
  rw [System.publisherStep, hpc]
  exact hstep

/-- Before an item is taken out nothing is published. -/
theorem Invariant.take (h : s.Invariant feed) (hpc : s.publisher = .waiting) :
    ∃ s', s.publisherStep = some s' ∧ s'.Invariant feed ∧ s'.published = s.published := by
  obtain ⟨s', hstep, h'⟩ := h.publisherStep
  refine ⟨s', hstep, h', ?_⟩
  simp only [System.publisherStep, hpc] at hstep
  split at hstep <;> cases hstep <;> rfl

end System

namespace LazyRingMachine

variable {T : Type} {bits : Fin 64} (m : LazyRingMachine T bits)

/-- Only the last step of `publish` publishes, and it publishes what was written. -/
theorem producerStep_published (item : T) :
    (∃ written currentHead, m.producer = .publishing written currentHead ∧
      (m.producerStep item).published = m.published ++ [written] ∧ (m.producerStep item).producer = .idle) ∨
    (∀ written currentHead, m.producer ≠ .publishing written currentHead) ∧
      (m.producerStep item).published = m.published := by
  cases hpc : m.producer with
  | idle => simp [producerStep, hpc]
  | claiming currentHead =>
    simp only [producerStep, hpc]
    split <;> simp
  | claimed slot => simp [producerStep, hpc]
  | written old => simp [producerStep, hpc]
  | publishing old currentHead => simp [producerStep, hpc]

/-- What is written is the item of this step, or it was written before. -/
theorem producerStep_written (item : T) {written : T}
    (hwritten : (m.producerStep item).producer.stage = .written written) :
    written = item ∨ m.producer.stage = .written written := by
  revert hwritten
  cases hpc : m.producer with
  | idle => simp [producerStep, hpc, LazyRingBuffer.ProducerPc.stage]
  | claiming currentHead =>
    simp only [producerStep, hpc]
    split <;> simp [LazyRingBuffer.ProducerPc.stage]
  | claimed slot => simp [producerStep, hpc, LazyRingBuffer.ProducerPc.stage, eq_comm]
  | written old =>
    simp only [producerStep, hpc, LazyRingBuffer.ProducerPc.stage]
    exact Or.inr
  | publishing old currentHead => simp [producerStep, hpc, LazyRingBuffer.ProducerPc.stage]

theorem producerStep_obtained (item : T) : (m.producerStep item).obtained = m.obtained := by
  rw [producerStep]
  split
  · rfl
  · split <;> rfl
  · rfl
  · rfl
  · rfl

/-- Only a claimed slot is read. -/
theorem consumerStep_obtained (hclaimed : ∀ slot, m.consumer ≠ .claimed slot) :
    m.consumerStep.obtained = m.obtained := by
  rw [consumerStep]
  split
  · rfl
  · split <;> rfl
  · rename_i slot hpc
    exact absurd hpc (hclaimed slot)
  · rfl
  · rfl

theorem consumerStep_producer : m.consumerStep.published = m.published ∧ m.consumerStep.producer = m.producer := by
  rw [consumerStep]
  split
  · exact ⟨rfl, rfl⟩
  · split <;> exact ⟨rfl, rfl⟩
  · exact ⟨rfl, rfl⟩
  · exact ⟨rfl, rfl⟩
  · exact ⟨rfl, rfl⟩

end LazyRingMachine

/-! ## A reader that only waits for the next write -/

namespace SeqLockMachine

open SeqLock

variable {T : Type} {m : SeqLockMachine Unit T}

def ReaderNext : ReaderPc T → Prop
  | .idle | .polling => True
  | .sampling method | .loading method _ | .checking method _ _ => method = .waitReadNext

/-- Every call so far is one of `wait_read_next`. -/
structure OnlyNext (m : SeqLockMachine Unit T) : Prop where
  pc : ReaderNext (m.readers ()).pc
  returns : ∀ ret ∈ m.returns, ret.method = .waitReadNext

theorem onlyNext_init (memory : T) : (init memory : SeqLockMachine Unit T).OnlyNext :=
  ⟨trivial, by simp [init]⟩

theorem OnlyNext.of_same {m' : SeqLockMachine Unit T} (h : m.OnlyNext) (hreaders : m'.readers = m.readers)
    (hreturns : m'.returns = m.returns) : m'.OnlyNext := by
  refine ⟨?_, ?_⟩
  · rw [hreaders]
    exact h.pc
  · rw [hreturns]
    exact h.returns

theorem write_readers (m : SeqLockMachine Unit T) (data : T) :
    (m.write data).readers = m.readers ∧ (m.write data).returns = m.returns := by
  rw [SeqLockMachine.write]
  split <;> exact ⟨rfl, rfl⟩

theorem writerStep_readers (m : SeqLockMachine Unit T) :
    m.writerStep.readers = m.readers ∧ m.writerStep.returns = m.returns ∧ m.writerStep.writes = m.writes := by
  rw [writerStep]
  split <;> exact ⟨rfl, rfl, rfl⟩

theorem OnlyNext.call (h : m.OnlyNext) : (m.step (.call () .waitReadNext)).OnlyNext := by
  rw [step]
  split
  · refine ⟨?_, ?_⟩
    · show ReaderNext (Function.update m.readers () _ ()).pc
      rw [Function.update_self]
      trivial
    · intro ret hret
      exact h.returns ret (by simpa [move] using hret)
  · exact h

/-- The next load of the reader keeps to the method of its call. -/
theorem readerStep_next {s : SeqLock T} {reader : Reader T} (h : ReaderNext reader.pc) :
    ReaderNext (readerStep s reader).1.pc ∧
      ∀ method result, (readerStep s reader).2 = some (method, result) → method = .waitReadNext := by
  cases hpc : reader.pc with
  | idle => simp [readerStep, hpc, ReaderNext]
  | polling =>
    simp only [readerStep, hpc]
    split <;> simp [hpc, ReaderNext, Reader.at]
  | sampling method =>
    rw [hpc] at h
    obtain rfl : method = .waitReadNext := h
    simp only [readerStep, hpc]
    split <;> simp [ReaderNext, Reader.at, Reader.fail]
  | loading method firstGeneration =>
    rw [hpc] at h
    simp only [readerStep, hpc]
    exact ⟨h, by rintro _ _ ⟨⟩⟩
  | checking method firstGeneration data =>
    rw [hpc] at h
    obtain rfl : method = .waitReadNext := h
    simp only [readerStep, hpc]
    split <;> simp +contextual [ReaderNext, Reader.at, Reader.fail, Reader.succeed, eq_comm]

theorem OnlyNext.reader (h : m.OnlyNext) : (m.step (.reader ())).OnlyNext := by
  obtain ⟨hpc, hreturned⟩ := readerStep_next (s := m.lock) h.pc
  refine ⟨?_, ?_⟩
  · show ReaderNext (Function.update m.readers () _ ()).pc
    rw [Function.update_self]
    exact hpc
  · intro ret hret
    rcases List.mem_append.mp hret with hold | hnew
    · exact h.returns ret hold
    · obtain ⟨⟨method, result⟩, hnext, rfl⟩ := Option.map_eq_some_iff.mp (Option.mem_toList.mp hnew)
      exact hreturned method result hnext

/-- What the reader has got are the writes with the numbers it has got. -/
theorem OnlyNext.results (h : m.OnlyNext) {f : Nat → T} (hsound : m.Sound)
    (hwrites : ∀ k x, m.writes[k]? = some x → x = f (k + 1)) :
    m.returns.filterMap (·.result) = (m.obtained ()).map f := by
  have hresult : ∀ ret ∈ m.returns, ∀ x, ret.result = some x → x = f ret.completed := by
    intro ret hret x hx
    obtain ⟨k, hk, hwrote⟩ := hsound.returns ret hret x hx
    rw [hk]
    exact hwrites k x hwrote
  have hmethod := h.returns
  rw [obtained]
  revert hresult hmethod
  induction m.returns with
  | nil => exact fun _ _ => rfl
  | cons ret returns ih =>
    intro hresult hmethod
    have hrest := ih (fun ret' hret => hresult ret' (List.mem_cons_of_mem _ hret))
      fun ret' hret => hmethod ret' (List.mem_cons_of_mem _ hret)
    have hnext := hmethod ret List.mem_cons_self
    cases hx : ret.result with
    | none => simpa [hx] using hrest
    | some x =>
      have hvalue := hresult ret List.mem_cons_self x hx
      simpa [hx, hnext, hvalue] using hrest

end SeqLockMachine

/-! ## The invariant -/

/-- Every event of the feed is possible when its turn comes, and none is an update. -/
structure Feed.Orderly (feed : Feed) : Prop where
  run : AdmissibleRun [] feed.events
  kinds : ∀ event ∈ feed.events, event.type ≠ .update
  few : feed.events.length < 2 ^ 64 - 1

/-- The best prices after the first events of the feed. -/
def Feed.top (feed : Feed) (n : Nat) : OrderSnapshot := topOfBook (applyAll [] (feed.events.take n))

/-- Numbers that increase from 1 are no more than the greatest. -/
theorem length_le_of_increasing {stamps : List Nat} {bound : Nat} (hincreasing : stamps.Pairwise (· < ·))
    (hbounded : ∀ n ∈ stamps, 1 ≤ n ∧ n ≤ bound) : stamps.length ≤ bound := by
  have hnodup : stamps.Nodup := hincreasing.imp Nat.ne_of_lt
  have hsub : stamps.toFinset ⊆ Finset.Icc 1 bound := by
    intro n hn
    rw [List.mem_toFinset] at hn
    exact Finset.mem_Icc.mpr (hbounded n hn)
  have hcard := Finset.card_le_card hsub
  rw [List.toFinset_card_of_nodup hnodup, Nat.card_Icc] at hcard
  omega

namespace Pipeline

variable [StdHash Price] [StdHash ID] {m : Pipeline} {feed : Feed}

/-- The engine alone, with what it wrote last. -/
def engine (m : Pipeline) : OrderBookEngine := ⟨m.state, m.publicBbo.writes.getLast?⟩

/-- The writes are the best prices after so many events, after more of them each time. -/
structure Stamped (feed : Feed) (bound : Nat) (writes : List OrderSnapshot) (stamps : List Nat) : Prop where
  increasing : stamps.Pairwise (· < ·)
  bounded : ∀ n ∈ stamps, 1 ≤ n ∧ n ≤ bound
  writes : writes = stamps.map feed.top

/-- What the handler publishes is in the ring buffer, and what the engine has taken out of it makes its
book, whatever the events are. -/
structure Carries (feed : Feed) (m : Pipeline) : Prop where
  handler : m.handler.Invariant feed
  ring : m.marketEvents.Sound
  published : m.marketEvents.published = m.handler.published
  written : ∀ event, m.marketEvents.producer.stage = .written event →
    ∃ item, m.handler.publisher = .publishing item ∧ BinaryProtocol.decode item = some event
  executed : (BookState.init : BookState).executeAll m.marketEvents.obtained = some m.state

/-- Behind an orderly feed the book is right, and the trader reads its best prices. -/
structure Follows (feed : Feed) (m : Pipeline) : Prop extends m.Carries feed where
  engine : ∃ book, m.engine.Tracks book ∧ orders book = applyAll [] m.marketEvents.obtained
  lock : m.publicBbo.Sound
  next : m.publicBbo.OnlyNext
  seen : m.publicBbo.Tracks ()
  stamps : ∃ stamps, Stamped feed m.marketEvents.obtained.length m.publicBbo.writes stamps
  trader : Trader.Reached m.phase m.trader
  visits : m.trader.Visits fun bbo => ∃ n, bbo = feed.top n

theorem carries_init (packets : Nat → List UInt8) (events : Nat → MarketEvent) (bbo : OrderSnapshot) :
    (init packets events bbo).Carries feed where
  handler := System.init_invariant packets
  ring := LazyRingMachine.sound_init events
  published := rfl
  written := by rintro event ⟨⟩
  executed := rfl

theorem follows_init (packets : Nat → List UInt8) (events : Nat → MarketEvent) (bbo : OrderSnapshot) :
    (init packets events bbo).Follows feed where
  toCarries := carries_init packets events bbo
  engine := ⟨[], OrderBookEngine.tracks_init, rfl⟩
  lock := SeqLockMachine.sound_init bbo
  next := SeqLockMachine.onlyNext_init bbo
  seen := Or.inl ⟨rfl, rfl⟩
  stamps := ⟨[], List.Pairwise.nil, by simp, rfl⟩
  trader := .start
  visits := .start

theorem Carries.obtained_prefix (h : m.Carries feed) : m.marketEvents.obtained <+: feed.events := by
  obtain ⟨n, htake⟩ := h.handler.published_take
  have hobtained := h.ring.safe.obtained_prefix
  rw [h.published, htake] at hobtained
  exact hobtained.trans (List.take_prefix n _)

theorem Follows.few_writes (h : m.Follows feed) (hfeed : feed.Orderly) : m.publicBbo.writes.length < 2 ^ 64 - 1 := by
  obtain ⟨stamps, hstamped⟩ := h.stamps
  have hlength := length_le_of_increasing hstamped.increasing hstamped.bounded
  have hobtained := h.obtained_prefix.length_le
  have hfew := hfeed.few
  rw [hstamped.writes, List.length_map]
  omega

/-! ## The handler -/

/-- The engine, the lock and the trader stand where they were. -/
structure SameBehind (m m' : Pipeline) : Prop where
  obtained : m'.marketEvents.obtained = m.marketEvents.obtained
  state : m'.state = m.state
  publicBbo : m'.publicBbo = m.publicBbo
  trader : m'.trader = m.trader
  phase : m'.phase = m.phase

theorem Follows.of_same {m' : Pipeline} (h : m.Follows feed) (hcarries : m'.Carries feed) (hsame : m.SameBehind m') :
    m'.Follows feed := by
  refine ⟨hcarries, ?_, ?_, ?_, ?_, ?_, ?_, ?_⟩
  · rw [Pipeline.engine, hsame.state, hsame.publicBbo, hsame.obtained]
    exact h.engine
  · rw [hsame.publicBbo]
    exact h.lock
  · rw [hsame.publicBbo]
    exact h.next
  · rw [hsame.publicBbo]
    exact h.seen
  · rw [hsame.publicBbo, hsame.obtained]
    exact h.stamps
  · rw [hsame.phase, hsame.trader]
    exact h.trader
  · rw [hsame.trader]
    exact h.visits

theorem Carries.handlerStep (h : m.Carries feed) {pick : Pick} (hpick : pick ≠ .publisher) :
    ∃ handler, m.handler.step feed pick = some handler ∧ ({ m with handler := handler } : Pipeline).Carries feed := by
  obtain ⟨handler, hstep, hinvariant⟩ := h.handler.step pick
  obtain ⟨hpublisher, hpublished⟩ := System.step_publisher hpick hstep
  refine ⟨handler, hstep, hinvariant, h.ring, h.published.trans hpublished.symm, ?_, h.executed⟩
  intro event hwritten
  rw [hpublisher]
  exact h.written event hwritten

theorem Carries.publisherStep (h : m.Carries feed) :
    ∃ m', m.publisherStep = some m' ∧ m'.Carries feed ∧ m.SameBehind m' := by
  rw [Pipeline.publisherStep]
  cases hpc : m.handler.publisher with
  | waiting =>
    obtain ⟨handler, hstep, hinvariant, hpublished⟩ := h.handler.take hpc
    refine ⟨{ m with handler := handler }, by simp only [hstep, Option.map_some],
      ⟨hinvariant, h.ring, h.published.trans hpublished.symm, ?_, h.executed⟩, ⟨rfl, rfl, rfl, rfl, rfl⟩⟩
    intro event hwritten
    obtain ⟨item, hitem, -⟩ := h.written event hwritten
    rw [hpc] at hitem
    cases hitem
  | publishing item =>
    obtain ⟨event, hdecode, handler, hstep, hinvariant, hpublished⟩ := h.handler.publish hpc
    have hsame : ∀ written, m.marketEvents.producer.stage = .written written → written = event := by
      intro written hwritten
      obtain ⟨item', hitem, hdecode'⟩ := h.written written hwritten
      rw [hpc] at hitem
      cases hitem
      rw [hdecode] at hdecode'
      exact (Option.some.inj hdecode').symm
    have hring := h.ring.producerStep event
    have hobtained := m.marketEvents.producerStep_obtained event
    have hexecuted : (BookState.init : BookState).executeAll (m.marketEvents.producerStep event).obtained =
        some m.state := by
      rw [hobtained]
      exact h.executed
    rcases m.marketEvents.producerStep_published event with
      ⟨written, currentHead, hproducer, hring', hidle⟩ | ⟨hother, hring'⟩
    · have hevent : written = event := hsame written (by rw [hproducer]; rfl)
      subst hevent
      refine ⟨{ m with handler := handler, marketEvents := m.marketEvents.producerStep written }, ?_,
        ⟨hinvariant, hring, ?_, ?_, hexecuted⟩, ⟨hobtained, rfl, rfl, rfl, rfl⟩⟩
      · simp only [hdecode, hproducer, hstep, Option.bind_eq_bind, Option.bind_some, Option.map_some]
      · show (m.marketEvents.producerStep written).published = handler.published
        rw [hring', hpublished, h.published]
      · intro event' hwritten
        simp only [hidle] at hwritten
        cases hwritten
    · refine ⟨{ m with marketEvents := m.marketEvents.producerStep event }, ?_,
        ⟨h.handler, hring, hring'.trans h.published, ?_, hexecuted⟩, ⟨hobtained, rfl, rfl, rfl, rfl⟩⟩
      · simp only [hdecode, Option.bind_eq_bind, Option.bind_some]
        cases hproducer : m.marketEvents.producer with
        | publishing written currentHead => exact absurd hproducer (hother written currentHead)
        | idle | claiming _ | claimed _ | written _ => rfl
      · intro event' hwritten
        refine ⟨item, hpc, ?_⟩
        rcases m.marketEvents.producerStep_written event hwritten with rfl | hold
        · exact hdecode
        · rw [hsame event' hold]
          exact hdecode

/-! ## The engine -/

/-- The lock and the trader are apart from the events. -/
theorem Carries.apart (h : m.Carries feed) {publicBbo : SeqLockMachine Unit OrderSnapshot} {trader : Trader}
    {phase : Trader.Phase} :
    ({ m with publicBbo := publicBbo, trader := trader, phase := phase } : Pipeline).Carries feed :=
  ⟨h.handler, h.ring, h.published, h.written, h.executed⟩

/-- The stores of a write leave everything else as it is. -/
theorem Follows.writerStep (h : m.Follows feed) (hfeed : feed.Orderly) :
    ({ m with publicBbo := m.publicBbo.writerStep } : Pipeline).Follows feed := by
  obtain ⟨hreaders, hreturns, hwrites⟩ := m.publicBbo.writerStep_readers
  refine ⟨h.toCarries.apart, ?_, h.lock.writerStep (h.few_writes hfeed), h.next.of_same hreaders hreturns,
    h.seen.step h.lock (h.few_writes hfeed) .writer, ?_, h.trader, h.visits⟩
  · rw [Pipeline.engine, hwrites]
    exact h.engine
  · rw [hwrites]
    exact h.stamps

/-- The engine finds nothing yet, or gives the slot back. -/
theorem Carries.consumerStep (h : m.Carries feed) (hclaimed : ∀ slot, m.marketEvents.consumer ≠ .claimed slot) :
    ({ m with marketEvents := m.marketEvents.consumerStep } : Pipeline).Carries feed := by
  obtain ⟨hpublished, hproducer⟩ := m.marketEvents.consumerStep_producer
  refine ⟨h.handler, h.ring.consumerStep, hpublished.trans h.published, ?_, ?_⟩
  · intro event hwritten
    exact h.written event (hproducer ▸ hwritten)
  · rw [m.marketEvents.consumerStep_obtained hclaimed]
    exact h.executed

section

omit [StdHash Price] [StdHash ID]

theorem consumerStep_claimed {slot : Nat} (hclaimed : m.marketEvents.consumer = .claimed slot) :
    m.marketEvents.consumerStep.obtained = m.marketEvents.obtained ++ [m.marketEvents.ring.buffer slot] := by
  rw [LazyRingMachine.consumerStep, hclaimed]

end

/-- The engine executes the event in the slot it has claimed. -/
theorem Carries.execute (h : m.Carries feed) {slot : Nat} (hclaimed : m.marketEvents.consumer = .claimed slot)
    {state : BookState} {status : BookUpdate}
    (hexecute : m.state.execute (m.marketEvents.ring.buffer slot) = some (state, status))
    (publicBbo : SeqLockMachine Unit OrderSnapshot) :
    ({ m with marketEvents := m.marketEvents.consumerStep, state := state, publicBbo := publicBbo } :
      Pipeline).Carries feed := by
  obtain ⟨hpublished, hproducer⟩ := m.marketEvents.consumerStep_producer
  refine ⟨h.handler, h.ring.consumerStep, hpublished.trans h.published, ?_, ?_⟩
  · intro event hwritten
    exact h.written event (hproducer ▸ hwritten)
  · rw [consumerStep_claimed hclaimed]
    exact BookState.executeAll_snoc h.executed hexecute

section

omit [StdHash Price] [StdHash ID]

/-- The next write comes after an event more. -/
theorem Stamped.snoc {bound : Nat} {writes : List OrderSnapshot} {stamps : List Nat}
    (h : Stamped feed bound writes stamps) :
    Stamped feed (bound + 1) (writes ++ [feed.top (bound + 1)]) (stamps ++ [bound + 1]) := by
  refine ⟨?_, ?_, ?_⟩
  · rw [List.pairwise_append]
    refine ⟨h.increasing, List.pairwise_singleton _ _, ?_⟩
    intro n hn n' hn'
    rw [List.mem_singleton.mp hn']
    exact Nat.lt_succ_of_le (h.bounded n hn).2
  · intro n hn
    rcases List.mem_append.mp hn with hold | hnew
    · exact ⟨(h.bounded n hold).1, Nat.le_succ_of_le (h.bounded n hold).2⟩
    · rw [List.mem_singleton.mp hnew]
      exact ⟨Nat.le_add_left 1 bound, Nat.le_refl _⟩
  · rw [h.writes, List.map_append, List.map_singleton]

theorem Stamped.mono {bound : Nat} {writes : List OrderSnapshot} {stamps : List Nat}
    (h : Stamped feed bound writes stamps) : Stamped feed (bound + 1) writes stamps :=
  ⟨h.increasing, fun n hn => ⟨(h.bounded n hn).1, Nat.le_succ_of_le (h.bounded n hn).2⟩, h.writes⟩

end

/-- The event in the claimed slot is the next of the feed. -/
theorem Carries.claimed_prefix (h : m.Carries feed) {slot : Nat}
    (hclaimed : m.marketEvents.consumer = .claimed slot) :
    m.marketEvents.obtained ++ [m.marketEvents.ring.buffer slot] <+: feed.events := by
  obtain ⟨n, htake⟩ := h.handler.published_take
  have hobtained := h.ring.consumerStep.safe.obtained_prefix
  rw [m.marketEvents.consumerStep_producer.1, h.published, htake, consumerStep_claimed hclaimed] at hobtained
  exact hobtained.trans (List.take_prefix n _)

/-- Behind an orderly feed the claimed event is executed. -/
theorem Follows.execute (h : m.Follows feed) (hfeed : feed.Orderly) (hidle : m.publicBbo.writer = .idle)
    {slot : Nat} (hclaimed : m.marketEvents.consumer = .claimed slot) :
    ∃ m', m.engineStep = some m' ∧ m'.Follows feed := by
  obtain ⟨book, htracks, horders⟩ := h.engine
  have hobtained := consumerStep_claimed hclaimed
  have hprefix := h.claimed_prefix hclaimed
  -- the event is admissible where the engine stands
  have hadm : (m.marketEvents.ring.buffer slot).Admissible (orders book) := by
    obtain ⟨rest, hrest⟩ := hprefix
    have hrun := hfeed.run
    rw [← hrest] at hrun
    rw [horders]
    exact (admissibleRun_append.mp (admissibleRun_append_all.mp hrun).1).2
  have hkind : (m.marketEvents.ring.buffer slot).type ≠ .update :=
    hfeed.kinds _ (List.IsPrefix.subset hprefix (List.mem_append_right _ (List.mem_singleton_self _)))
  obtain ⟨engine', u, book', hconsume, hexec, htracks', horders', -, hlatest⟩ := htracks.consume hadm hkind
  have horders'' : orders book' = applyAll [] m.marketEvents.consumerStep.obtained := by
    rw [horders', horders, hobtained, applyAll_append]
  have hlength : m.marketEvents.consumerStep.obtained.length = m.marketEvents.obtained.length + 1 := by
    rw [hobtained, List.length_append, List.length_singleton]
  have htop : engine'.state.snapshot = feed.top (m.marketEvents.obtained.length + 1) := by
    rw [htracks'.snapshot_eq, horders'', Feed.top, ← hlength]
    rw [← hobtained] at hprefix
    rw [← List.prefix_iff_eq_take.mp hprefix]
  obtain ⟨stamps, hstamped⟩ := h.stamps
  have hexec' : m.state.execute (m.marketEvents.ring.buffer slot) = some (engine'.state, u) := hexec
  rw [OrderBookEngine.consume, hexec, Option.map_some, Option.some.injEq] at hconsume
  by_cases hu : u = .newBestBid ∨ u = .newBestOffer
  · have hwrites : (m.publicBbo.write engine'.state.snapshot).writes =
        m.publicBbo.writes ++ [engine'.state.snapshot] := by
      rw [SeqLockMachine.write, hidle]
    obtain ⟨hreaders, hreturns⟩ := m.publicBbo.write_readers engine'.state.snapshot
    refine ⟨{ m with
      marketEvents := m.marketEvents.consumerStep
      state := engine'.state
      publicBbo := m.publicBbo.write engine'.state.snapshot }, ?_, h.toCarries.execute hclaimed hexec' _,
      ⟨book', ?_, horders''⟩, h.lock.write _,
      h.next.of_same hreaders hreturns, h.seen.step h.lock (h.few_writes hfeed) (.write _),
      ⟨stamps ++ [m.marketEvents.obtained.length + 1], ?_⟩, h.trader, h.visits⟩
    · simp only [engineStep, hidle, hclaimed, hexec', Option.bind_eq_bind, Option.bind_some, if_pos hu]
      rfl
    · have hengine : engine' = ⟨engine'.state, some engine'.state.snapshot⟩ := by rw [← hlatest]
      rw [Pipeline.engine, hwrites, List.getLast?_concat, ← hengine]
      exact htracks'
    · show Stamped feed m.marketEvents.consumerStep.obtained.length
        (m.publicBbo.write engine'.state.snapshot).writes (stamps ++ [m.marketEvents.obtained.length + 1])
      rw [hlength, hwrites, htop]
      exact hstamped.snoc
  · simp only [if_neg hu] at hconsume
    refine ⟨{ m with marketEvents := m.marketEvents.consumerStep, state := engine'.state }, ?_,
      h.toCarries.execute hclaimed hexec' _, ⟨book', ?_, horders''⟩, h.lock, h.next, h.seen, ⟨stamps, ?_⟩,
      h.trader, h.visits⟩
    · simp only [engineStep, hidle, hclaimed, hexec', Option.bind_eq_bind, Option.bind_some, if_neg hu]
      rfl
    · rw [← hconsume] at htracks' ⊢
      exact htracks'
    · show Stamped feed m.marketEvents.consumerStep.obtained.length m.publicBbo.writes stamps
      rw [hlength]
      exact hstamped.mono

theorem Follows.engineStep (h : m.Follows feed) (hfeed : feed.Orderly) :
    ∃ m', m.engineStep = some m' ∧ m'.Follows feed := by
  cases hwriter : m.publicBbo.writer with
  | idle =>
    cases hconsumer : m.marketEvents.consumer with
    | claimed slot => exact h.execute hfeed hwriter hconsumer
    | idle | claiming _ | read | consuming _ =>
      have hnone : ∀ slot, m.marketEvents.consumer ≠ .claimed slot := by
        rw [hconsumer]
        rintro slot ⟨⟩
      refine ⟨_, by simp only [Pipeline.engineStep, hwriter, hconsumer],
        h.of_same (h.toCarries.consumerStep hnone) ⟨?_, rfl, rfl, rfl, rfl⟩⟩
      exact m.marketEvents.consumerStep_obtained hnone
  | locking _ _ | storing _ _ | releasing _ _ =>
    exact ⟨_, by simp only [Pipeline.engineStep, hwriter], h.writerStep hfeed⟩

/-! ## The trader -/

theorem Follows.withLock (h : m.Follows feed) {lock : SeqLockMachine Unit OrderSnapshot} (hsound : lock.Sound)
    (hnext : lock.OnlyNext) (hseen : lock.Tracks ()) (hwrites : lock.writes = m.publicBbo.writes) :
    ({ m with publicBbo := lock } : Pipeline).Follows feed := by
  refine ⟨h.toCarries.apart, ?_, hsound, hnext, hseen, ?_, h.trader, h.visits⟩
  · rw [Pipeline.engine, hwrites]
    exact h.engine
  · rw [hwrites]
    exact h.stamps

theorem Follows.withTrader (h : m.Follows feed) {trader : Trader} {phase : Trader.Phase}
    (hreached : Trader.Reached phase trader) (hvisits : trader.Visits fun bbo => ∃ n, bbo = feed.top n) :
    ({ m with trader := trader, phase := phase } : Pipeline).Follows feed :=
  ⟨h.toCarries.apart, h.engine, h.lock, h.next, h.seen, h.stamps, hreached, hvisits⟩

theorem Follows.call (h : m.Follows feed) (hfeed : feed.Orderly) :
    ({ m with publicBbo := m.publicBbo.step (.call () .waitReadNext) } : Pipeline).Follows feed := by
  refine h.withLock (h.lock.step (h.few_writes hfeed) _) h.next.call (h.seen.step h.lock (h.few_writes hfeed) _) ?_
  rw [SeqLockMachine.step]
  split <;> rfl

theorem Follows.reader (h : m.Follows feed) (hfeed : feed.Orderly) :
    ({ m with publicBbo := m.publicBbo.step (.reader ()) } : Pipeline).Follows feed :=
  h.withLock (h.lock.step (h.few_writes hfeed) _) h.next.reader (h.seen.step h.lock (h.few_writes hfeed) _) rfl

/-- A value that a load returns is the top of the book after some of the events. -/
theorem Follows.returned (h : m.Follows feed) (hfeed : feed.Orderly) {method : SeqLock.Method}
    {snapshot : OrderSnapshot}
    (hreturned : (SeqLock.readerStep m.publicBbo.lock (m.publicBbo.readers ())).2 = some (method, some snapshot)) :
    ∃ n, snapshot = feed.top n := by
  obtain ⟨k, -, hwrote⟩ := (h.lock.reader (h.few_writes hfeed) ()).returned method snapshot hreturned
  obtain ⟨stamps, hstamped⟩ := h.stamps
  rw [hstamped.writes, List.getElem?_map] at hwrote
  obtain ⟨n, -, htop⟩ := Option.map_eq_some_iff.mp hwrote
  exact ⟨n, htop.symm⟩

/-- A round of `place_new_orders` is defined, and goes on or finds the trade buffer full. -/
theorem Follows.round (h : m.Follows feed) (hplacing : m.phase = .placing) {outbound : OutboundOrderRequest}
    {rest : StrategyOrderBuffer} (hbuffer : m.trader.orderBuffer = outbound :: rest) (risk : RiskData) (room : Bool) :
    ∃ result trader, m.trader.placeOne outbound rest ⟨some risk, room⟩ = some (result, trader) ∧
      ({ m with trader := trader, phase := if result = none then .placing else .failed } : Pipeline).Follows feed := by
  have hreached := h.trader
  rw [hplacing] at hreached
  have hrisk : (⟨some risk, room⟩ : Check).risk ≠ none := Option.some_ne_none risk
  obtain ⟨result, trader, hplace, -, hcase⟩ := Trader.placeOne_drains ⟨some risk, room⟩ hreached.occupied.1 hbuffer
    hrisk
  refine ⟨result, trader, hplace, h.withTrader ?_ (h.visits.round hbuffer hplace)⟩
  rcases hcase with ⟨rfl, -⟩ | rfl
  · rw [if_pos rfl]
    exact hreached.round hbuffer hrisk hplace
  · rw [if_neg (Option.some_ne_none _)]
    exact hreached.full hbuffer hrisk hplace

/-- The next load of `wait_read_next`, after which the strategy sees what it returns. -/
theorem Follows.read (h : m.Follows feed) (hfeed : feed.Orderly) (hphase : m.phase = .waiting)
    (hbusy : (m.publicBbo.readers ()).pc ≠ .idle) {risk : RiskData} {room : Bool}
    (hfits : ¬ m.Overflows (.trader risk room)) :
    ∃ m', m.traderStep risk room = some m' ∧ m'.Follows feed := by
  have hread := h.reader hfeed
  cases hreturned : (SeqLock.readerStep m.publicBbo.lock (m.publicBbo.readers ())).2 with
  | none =>
    refine ⟨_, ?_, hread⟩
    simp only [Pipeline.traderStep, hphase, hreturned]
  | some returned =>
    obtain ⟨method, snapshot⟩ := returned
    cases snapshot with
    | none =>
      refine ⟨_, ?_, hread⟩
      simp only [Pipeline.traderStep, hphase, hreturned]
    | some snapshot =>
      have hreached := h.trader
      rw [hphase] at hreached
      obtain ⟨staged, hstage, -⟩ := Trader.pushStage_eq (hreached.occupied.2 rfl) (.snapshot snapshot [])
      have hsome : m.trader.checkedStage (.snapshot snapshot []) ≠ none := by
        intro hnone
        rw [Overflows, hphase] at hfits
        exact hfits ⟨method, snapshot, hreturned, hnone⟩
      have hchecked := Trader.checkedStage_eq hsome hstage
      refine ⟨{ m with publicBbo := m.publicBbo.step (.reader ()), trader := staged, phase := .placing }, ?_,
        hread.withTrader (hreached.stage hstage) (h.visits.snapshot (h.returned hfeed hreturned) hstage)⟩
      simp only [Pipeline.traderStep, hphase, hreturned, hchecked, Option.bind_eq_bind, Option.bind_some]
      rfl

theorem Follows.traderStep (h : m.Follows feed) (hfeed : feed.Orderly) {risk : RiskData} {room : Bool}
    (hfits : ¬ m.Overflows (.trader risk room)) :
    ∃ m', m.traderStep risk room = some m' ∧ m'.Follows feed := by
  have hreached := h.trader
  cases hphase : m.phase with
  | waiting =>
    by_cases hidle : (m.publicBbo.readers ()).pc = .idle
    · refine ⟨_, ?_, h.call hfeed⟩
      simp only [Pipeline.traderStep, hphase, hidle]
    · exact h.read hfeed hphase hidle hfits
  | placing =>
    rw [hphase] at hreached
    cases hbuffer : m.trader.orderBuffer with
    | nil =>
      refine ⟨{ m with phase := .waiting }, ?_, h.withTrader (hreached.drained hbuffer) h.visits⟩
      simp only [Pipeline.traderStep, hphase, hbuffer]
    | cons outbound rest =>
      obtain ⟨result, trader, hplace, hfollows⟩ := h.round hphase hbuffer risk room
      have hsome : m.trader.checkedPlaceOne outbound rest ⟨some risk, room⟩ ≠ none := by
        intro hnone
        rw [Overflows, hphase] at hfits
        exact hfits ⟨outbound, rest, hbuffer, hnone⟩
      have hchecked := Trader.checkedPlaceOne_eq hsome hplace
      refine ⟨_, ?_, hfollows⟩
      simp only [Pipeline.traderStep, hphase, hbuffer, hchecked, Option.bind_eq_bind, Option.bind_some]
      rfl
  | failed =>
    refine ⟨m, ?_, h⟩
    simp only [Pipeline.traderStep, hphase]

theorem Follows.reportStep (h : m.Follows feed) {update : OrderFillUpdate}
    (hfits : ¬ m.Overflows (.report update)) :
    ∃ m', m.reportStep update = some m' ∧ m'.Follows feed := by
  rw [Pipeline.reportStep]
  split
  · rename_i hphase hidle
    have hreached := h.trader
    rw [hphase] at hreached
    obtain ⟨staged, hstage, -⟩ := Trader.pushStage_eq (hreached.occupied.2 rfl) (.report update [])
    have hsome : m.trader.checkedStage (.report update []) ≠ none := fun hnone => hfits ⟨hphase, hidle, hnone⟩
    have hchecked := Trader.checkedStage_eq hsome hstage
    refine ⟨_, by rw [hchecked]; rfl, h.withTrader (hreached.stage hstage) (h.visits.report hstage)⟩
  · exact ⟨m, rfl, h⟩

/-! ## Runs -/

theorem step_pick {pick : Pick} (hpick : pick ≠ .publisher) :
    m.step feed (.handler pick) = (m.handler.step feed pick).map fun handler => { m with handler := handler } := by
  cases pick with
  | publisher => exact absurd rfl hpick
  | sequence | broadcast | listener | arrive _ _ | listenerError | handler | client _ | clientError _ => rfl

theorem Overflows.step {turn : PipelineTurn} (h : m.Overflows turn) : m.step feed turn = none := by
  cases turn with
  | handler pick => exact h.elim
  | engine => exact h.elim
  | trader risk room =>
    rw [Overflows] at h
    cases hphase : m.phase with
    | waiting =>
      rw [hphase] at h
      obtain ⟨method, snapshot, hreturned, hnone⟩ := h
      have hbusy : (m.publicBbo.readers ()).pc ≠ .idle := by
        intro hidle
        rw [SeqLock.readerStep, hidle] at hreturned
        cases hreturned
      cases hpc : (m.publicBbo.readers ()).pc with
      | idle => exact absurd hpc hbusy
      | polling | sampling _ | loading _ _ | checking _ _ _ =>
        simp only [Pipeline.step, Pipeline.traderStep, hphase, hpc, hreturned, hnone, Option.bind_eq_bind,
          Option.bind_none]
    | placing =>
      rw [hphase] at h
      obtain ⟨outbound, rest, hbuffer, hnone⟩ := h
      simp only [Pipeline.step, Pipeline.traderStep, hphase, hbuffer, hnone, Option.bind_eq_bind, Option.bind_none]
    | failed =>
      rw [hphase] at h
      exact h.elim
  | report update =>
    obtain ⟨hphase, hidle, hnone⟩ := h
    simp only [Pipeline.step, Pipeline.reportStep, hphase, hidle, hnone, Option.bind_eq_bind, Option.bind_none]

theorem Follows.step (h : m.Follows feed) (hfeed : feed.Orderly) {turn : PipelineTurn}
    (hfits : ¬ m.Overflows turn) : ∃ m', m.step feed turn = some m' ∧ m'.Follows feed := by
  cases turn with
  | handler pick =>
    by_cases hpick : pick = .publisher
    · obtain ⟨m', hstep, hcarries, hsame⟩ := h.toCarries.publisherStep
      exact ⟨m', by rw [hpick]; exact hstep, h.of_same hcarries hsame⟩
    · obtain ⟨handler, hstep, hcarries⟩ := h.toCarries.handlerStep hpick
      refine ⟨{ m with handler := handler }, ?_, h.of_same hcarries ⟨rfl, rfl, rfl, rfl, rfl⟩⟩
      rw [step_pick hpick, hstep, Option.map_some]
  | engine => exact h.engineStep hfeed
  | trader risk room => exact h.traderStep hfeed hfits
  | report update => exact h.reportStep hfits

/-- Steps have results where the trader does not overflow. -/
theorem sticks (hfeed : feed.Orderly) : Stuttering.Sticks (Pipeline.step feed) Overflows (Follows feed) where
  stuck := fun _ _ hoverflows => hoverflows.step
  step := fun _ _ h hfits => h.step hfeed hfits

section

omit [StdHash Price] [StdHash ID]

/-- The trader leaves the events alone. -/
theorem traderStep_apart {m' : Pipeline} {risk : RiskData} {room : Bool} (hstep : m.traderStep risk room = some m') :
    ∃ publicBbo trader phase, m' = { m with publicBbo := publicBbo, trader := trader, phase := phase } := by
  rw [Pipeline.traderStep] at hstep
  split at hstep
  · split at hstep
    · exact ⟨_, _, _, (Option.some.inj hstep).symm⟩
    · split at hstep
      · obtain ⟨staged, -, hstep⟩ := Option.bind_eq_some_iff.mp hstep
        obtain ⟨trader, -, hm'⟩ := Option.bind_eq_some_iff.mp hstep
        exact ⟨_, _, _, (Option.some.inj hm').symm⟩
      · exact ⟨_, _, _, (Option.some.inj hstep).symm⟩
  · split at hstep
    · exact ⟨_, _, _, (Option.some.inj hstep).symm⟩
    · obtain ⟨round, -, hstep⟩ := Option.bind_eq_some_iff.mp hstep
      obtain ⟨⟨result, trader⟩, -, hm'⟩ := Option.bind_eq_some_iff.mp hstep
      exact ⟨_, _, _, (Option.some.inj hm').symm⟩
  · exact ⟨_, _, _, (Option.some.inj hstep).symm⟩

theorem reportStep_apart {m' : Pipeline} {update : OrderFillUpdate} (hstep : m.reportStep update = some m') :
    ∃ publicBbo trader phase, m' = { m with publicBbo := publicBbo, trader := trader, phase := phase } := by
  rw [Pipeline.reportStep] at hstep
  split at hstep
  · obtain ⟨staged, -, hstep⟩ := Option.bind_eq_some_iff.mp hstep
    obtain ⟨trader, -, hm'⟩ := Option.bind_eq_some_iff.mp hstep
    exact ⟨_, _, _, (Option.some.inj hm').symm⟩
  · exact ⟨_, _, _, (Option.some.inj hstep).symm⟩

end

/-- Whatever the events of the feed are: a step that has a result carries them on. -/
theorem Carries.step {m' : Pipeline} (h : m.Carries feed) {turn : PipelineTurn} (hstep : m.step feed turn = some m') :
    m'.Carries feed := by
  cases turn with
  | handler pick =>
    by_cases hpick : pick = .publisher
    · subst hpick
      obtain ⟨m'', hstep', hcarries, -⟩ := h.publisherStep
      rw [show m.publisherStep = some m' from hstep] at hstep'
      cases hstep'
      exact hcarries
    · obtain ⟨handler, hpicked, hcarries⟩ := h.handlerStep hpick
      rw [step_pick hpick, hpicked, Option.map_some] at hstep
      cases hstep
      exact hcarries
  | engine =>
    simp only [Pipeline.step, Pipeline.engineStep] at hstep
    split at hstep
    · split at hstep
      · rename_i hclaimed
        obtain ⟨⟨state, status⟩, hexecute, hm'⟩ := Option.bind_eq_some_iff.mp hstep
        cases hm'
        exact h.execute hclaimed hexecute _
      · rename_i hnone
        cases hstep
        exact h.consumerStep hnone
    · cases hstep
      exact h.apart
  | trader risk room =>
    obtain ⟨publicBbo, trader, phase, rfl⟩ := traderStep_apart hstep
    exact h.apart
  | report update =>
    obtain ⟨publicBbo, trader, phase, rfl⟩ := reportStep_apart hstep
    exact h.apart

theorem Carries.run {m' : Pipeline} (h : m.Carries feed) {turns : List PipelineTurn}
    (hrun : m.run feed turns = some m') : m'.Carries feed := by
  induction turns generalizing m with
  | nil =>
    cases hrun
    exact h
  | cons turn turns ih =>
    rw [Pipeline.run, List.foldlM_cons] at hrun
    obtain ⟨m₁, hstep, hrest⟩ := Option.bind_eq_some_iff.mp hrun
    exact ih (h.step hstep) hrest

theorem Follows.run (h : m.Follows feed) (hfeed : feed.Orderly) {turns : List PipelineTurn} {m' : Pipeline}
    (hrun : m.run feed turns = some m') : m'.Follows feed := (sticks hfeed).run_some h hrun

/-- The numbers of the events after which the snapshots were taken that the trader has got. -/
theorem Follows.reads_eq (h : m.Follows feed) {stamps : List Nat}
    (hstamped : Stamped feed m.marketEvents.obtained.length m.publicBbo.writes stamps) :
    m.reads = (m.publicBbo.obtained ()).map fun n => feed.top (stamps.getD (n - 1) 0) := by
  apply h.next.results h.lock
  intro k snapshot hwrote
  rw [hstamped.writes, List.getElem?_map] at hwrote
  obtain ⟨n, hn, htop⟩ := Option.map_eq_some_iff.mp hwrote
  rw [Nat.add_sub_cancel, List.getD_eq_getElem?_getD, hn, Option.getD_some, htop]

theorem Follows.read_stamps (h : m.Follows feed) :
    ∃ stamps : List Nat, stamps.Pairwise (· < ·) ∧ (∀ n ∈ stamps, n ≤ m.marketEvents.obtained.length) ∧
      m.reads = stamps.map feed.top := by
  obtain ⟨stamps, hstamped⟩ := h.stamps
  have hwrites : m.publicBbo.writes.length = stamps.length := by rw [hstamped.writes, List.length_map]
  have hrange : ∀ n ∈ m.publicBbo.obtained (), 1 ≤ n ∧ n - 1 < stamps.length := by
    intro n hn
    obtain ⟨ret, hret, rfl⟩ := List.mem_map.mp hn
    obtain ⟨hret, hcond⟩ := List.mem_filter.mp hret
    simp only [decide_eq_true_eq] at hcond
    obtain ⟨snapshot, hsnapshot⟩ := Option.isSome_iff_exists.mp hcond.2.2
    obtain ⟨k, hk, hwrote⟩ := h.lock.returns ret hret snapshot hsnapshot
    have hlt := (List.getElem?_eq_some_iff.mp hwrote).1
    omega
  refine ⟨(m.publicBbo.obtained ()).map fun n => stamps.getD (n - 1) 0, ?_, ?_, ?_⟩
  · rw [List.pairwise_map]
    refine (h.lock.increasing ()).imp_of_mem ?_
    intro n n' hn hn' hlt
    obtain ⟨hpos, hless⟩ := hrange n hn
    obtain ⟨-, hless'⟩ := hrange n' hn'
    rw [List.getD_eq_getElem _ _ hless, List.getD_eq_getElem _ _ hless']
    exact List.pairwise_iff_getElem.mp hstamped.increasing _ _ hless hless' (by omega)
  · intro n hn
    obtain ⟨k, hk, rfl⟩ := List.mem_map.mp hn
    have hless := (hrange k hk).2
    rw [List.getD_eq_getElem _ _ hless]
    exact (hstamped.bounded _ (List.getElem_mem hless)).2
  · rw [List.map_map]
    exact h.reads_eq hstamped

/-- Nothing is on its way through the handler, the ring buffer or the lock, and the trader finds
the generation that it saw last. -/
structure Settled (m : Pipeline) : Prop where
  quiet : m.handler.Quiet
  consumed : m.marketEvents.unconsumed = 0
  writer : m.publicBbo.writer = .idle
  same : m.publicBbo.lock.generation = (m.publicBbo.readers ()).lastGenerationSeen

instance decidableWaiting : (pc : ClientPc) → Decidable (pc = .waiting)
  | .waiting => .isTrue rfl
  | .sending _ | .receiving _ | .writing _ _ | .stopped => .isFalse nofun

instance decidableQuiet (s : System) : Decidable s.Quiet := inferInstanceAs (Decidable (_ ∧ _ ∧ _ ∧ _ ∧ _))

instance decidableSettled (m : Pipeline) : Decidable m.Settled :=
  decidable_of_iff (m.handler.Quiet ∧ m.marketEvents.unconsumed = 0 ∧ m.publicBbo.writer = .idle ∧
      m.publicBbo.lock.generation = (m.publicBbo.readers ()).lastGenerationSeen)
    ⟨fun h => ⟨h.1, h.2.1, h.2.2.1, h.2.2.2⟩, fun h => ⟨h.quiet, h.consumed, h.writer, h.same⟩⟩

end Pipeline

section

attribute [local instance] priceHash idHash

theorem twoOrders_orderly : twoOrders.Orderly := ⟨by decide, by decide, by decide⟩

end

end HftPipeline
