import HftPipeline.Recovery
import HftPipeline.Pipeline

/-!
# What the trader gets in the end

The publisher polls a full ring buffer, the engine an empty one, and the trader a generation that
does not change, so that a pipeline without anything to do does not come to rest. But only so
many steps of its threads do anything else before the next packet or fill report arrives,
and a fair schedule takes them all.
-/
namespace HftPipeline

/-! ## The ring buffer -/

namespace LazyRingBuffer

/-- The steps of the producer up to the end of `publish`. It polls a buffer with no room. -/
def ProducerPc.work {T : Type} (room : Nat) : ProducerPc T → Nat
  | .idle => 3 + min room 1
  | .claiming _ => 3
  | .claimed _ => 2
  | .written _ => 1
  | .publishing _ _ => 0

/-- The steps of the consumer up to the end of `consume`, if writing a snapshot between two of
them takes three more. It polls an empty buffer. -/
def ConsumerPc.work (items : Nat) : ConsumerPc → Nat
  | .idle => 6 + min items 1
  | .claiming _ => 6
  | .claimed _ => 5
  | .read => 1
  | .consuming _ => 0

/-- The other side changes little. -/
theorem ProducerPc.work_le {T : Type} (pc : ProducerPc T) (room room' : Nat) : pc.work room' ≤ pc.work room + 1 := by
  cases pc with
  | idle =>
    simp only [work]
    omega
  | claiming _ | claimed _ | written _ | publishing _ _ => exact Nat.le_succ _

theorem ConsumerPc.work_le (pc : ConsumerPc) (items items' : Nat) : pc.work items' ≤ pc.work items + 1 := by
  cases pc with
  | idle =>
    simp only [work]
    omega
  | claiming _ | claimed _ | read | consuming _ => exact Nat.le_succ _

end LazyRingBuffer

namespace LazyRingMachine

open LazyRingBuffer BoundedChannel

variable {T : Type} {bits : Fin 64} {m : LazyRingMachine T bits}

/-- An item that is published takes fewer than ten steps. -/
def work (m : LazyRingMachine T bits) : Nat :=
  10 * m.unconsumed + m.producer.work (2 ^ bits.val - m.unconsumed) + m.consumer.work m.unconsumed

theorem producerStep_frame (m : LazyRingMachine T bits) (item : T) :
    (m.producerStep item).consumer = m.consumer ∧ (m.producerStep item).consumed = m.consumed := by
  rw [producerStep]
  split
  · exact ⟨rfl, rfl⟩
  · split <;> exact ⟨rfl, rfl⟩
  · exact ⟨rfl, rfl⟩
  · exact ⟨rfl, rfl⟩
  · exact ⟨rfl, rfl⟩

/-- With `publish` there is an item more. -/
theorem publishing_work (item : T) {written : T} {currentHead : UInt64}
    (hpc : m.producer = .publishing written currentHead) : (m.producerStep item).work ≤ m.work + 15 := by
  have hpolls := m.consumer.work_le m.unconsumed (m.published.length + 1 - m.consumed)
  simp only [work, unconsumed, producerStep, hpc, List.length_append, List.length_singleton,
    ProducerPc.work] at hpolls ⊢
  omega

/-- Before that the producer polls a full buffer or goes on. -/
theorem Sound.producer_progress (h : m.Sound) (item : T)
    (hpc : ∀ written currentHead, m.producer ≠ .publishing written currentHead) :
    (m.producerStep item).unconsumed = m.unconsumed ∧
      ((m.producerStep item).work < m.work ∨
        m.unconsumed = 2 ^ bits.val ∧ (m.producerStep item).work = m.work) := by
  have hunconsumed : (m.producerStep item).unconsumed = m.unconsumed := by
    rcases m.producerStep_published item with ⟨written, currentHead, hpublishing, -⟩ | ⟨-, hpublished⟩
    · exact absurd hpublishing (hpc written currentHead)
    · rw [unconsumed, hpublished, (m.producerStep_frame item).2, unconsumed]
  refine ⟨hunconsumed, ?_⟩
  rw [work, hunconsumed, (m.producerStep_frame item).1, work]
  have hle : m.unconsumed ≤ 2 ^ bits.val := h.channel.unconsumed_le
  cases hproducer : m.producer with
  | idle =>
    simp only [LazyRingMachine.producerStep, hproducer, ProducerPc.work]
    omega
  | claiming currentHead =>
    have hcurrent := h.producer
    rw [hproducer] at hcurrent
    have hshows : Shows currentHead m.published.length := hcurrent ▸ h.head
    have htest := sub_eq_ringCapacity_iff h.channel hshows h.tail
    simp only [LazyRingMachine.producerStep, hproducer]
    split
    · rename_i hfull
      have hunconsumed : m.unconsumed = 2 ^ bits.val := htest.mp (beq_iff_eq.mp hfull)
      simp only [ProducerPc.work]
      omega
    · simp only [ProducerPc.work]
      omega
  | claimed slot =>
    left
    simp only [LazyRingMachine.producerStep, hproducer, ProducerPc.work]
    omega
  | written _ =>
    left
    simp only [LazyRingMachine.producerStep, hproducer, ProducerPc.work]
    omega
  | publishing written currentHead => exact absurd hproducer (hpc written currentHead)

end LazyRingMachine

/-! ## The lock -/

namespace SeqLock

variable {T : Type}

/-- The stores of a write that are left. -/
def WriterPc.work : WriterPc T → Nat
  | .idle => 0
  | .locking _ _ => 3
  | .storing _ _ => 2
  | .releasing _ _ => 1

/-- The reader waits for the word to change, or to be unlocked. -/
def Reader.Polls (reader : Reader T) (s : SeqLock T) : Prop :=
  match reader.pc with
  | .polling => s.generation = reader.lastGenerationSeen
  | .sampling _ => s.generation = locked
  | .idle | .loading _ _ | .checking _ _ _ => False

/-- How many more values the reader gets if nothing is written. -/
def Reader.behind (reader : Reader T) (s : SeqLock T) : Nat :=
  match reader.pc with
  | .idle | .polling => if s.generation = reader.lastGenerationSeen then 0 else 1
  | .sampling _ | .loading _ _ | .checking _ _ _ => 1

/-- The loads up to the next value. An attempt that began before the last write is made again. -/
def Reader.work (reader : Reader T) (s : SeqLock T) : Nat :=
  match reader.pc with
  | .idle => 7
  | .polling => 4
  | .sampling _ => 3
  | .loading _ firstGeneration => if firstGeneration = s.generation then 2 else 6
  | .checking _ firstGeneration _ => if firstGeneration = s.generation then 1 else 5

theorem Reader.work_le (reader : Reader T) (s : SeqLock T) : reader.work s ≤ 7 := by
  rw [work]
  split
  · exact le_refl _
  · omega
  · omega
  · split <;> omega
  · split <;> omega

end SeqLock

namespace SeqLockMachine

open SeqLock

variable {T : Type} {m : SeqLockMachine Unit T}

end SeqLockMachine

/-! ## The threads of the pipeline -/

inductive PipelineThread where
  | handler (thread : SystemThread)
  | engine
  | trader
  deriving DecidableEq, Repr

def PipelineTurn.thread : PipelineTurn → Option PipelineThread
  | .handler pick => pick.thread.map .handler
  | .engine => some .engine
  | .trader _ _ => some .trader
  | .report _ => none

/-- Nothing comes from outside, neither a packet nor a fill report. -/
def PipelineTurn.Silent : PipelineTurn → Prop
  | .handler pick => pick.Silent
  | .engine | .trader _ _ => True
  | .report _ => False

namespace Pipeline

variable [StdHash Price] [StdHash ID] {m m' : Pipeline} {feed : Feed}

/-- The thread does not only poll. -/
def Ready (feed : Feed) (m : Pipeline) : PipelineThread → Prop
  | .handler thread => ¬ FairRun.Idle (System.step feed) Pick.thread m.handler thread ∧
      (thread = .publisher → m.handler.publisher = .waiting ∨ m.marketEvents.unconsumed < 2 ^ 15)
  | .engine => m.publicBbo.writer ≠ .idle ∨ m.marketEvents.unconsumed ≠ 0
  | .trader => m.phase = .placing ∨ m.phase = .waiting ∧ ¬ (m.publicBbo.readers ()).Polls m.publicBbo.lock

/-- The steps of the trader up to its next call of `wait_read_next`, or up to the end of one. -/
def traderWork (m : Pipeline) : Nat :=
  match m.phase with
  | .waiting => (m.publicBbo.readers ()).work m.publicBbo.lock
  | .placing => 8 + m.trader.orderBuffer.mostRounds
  | .failed => 0

/-- The handler publishes no more than so many events, each of them may be written by the engine,
and the trader may read what is written. -/
def work (feed : Feed) (m : Pipeline) : Nat ×ₗ Nat ×ₗ Nat :=
  toLex (16 * m.handler.work feed + m.marketEvents.work + m.publicBbo.writer.work,
    toLex ((m.publicBbo.readers ()).behind m.publicBbo.lock, m.traderWork))

/-- Only what a polling thread holds has changed. -/
structure Stutters (m m' : Pipeline) : Prop where
  handler : m'.handler = m.handler
  unconsumed : m'.marketEvents.unconsumed = m.marketEvents.unconsumed
  events : m'.marketEvents.work = m.marketEvents.work
  writer : m'.publicBbo.writer = m.publicBbo.writer
  lock : m'.publicBbo.lock = m.publicBbo.lock
  reader : m'.publicBbo.readers () = m.publicBbo.readers ()
  trader : m'.trader = m.trader
  phase : m'.phase = m.phase

section

omit [StdHash Price] [StdHash ID]

theorem Stutters.refl (m : Pipeline) : m.Stutters m := ⟨rfl, rfl, rfl, rfl, rfl, rfl, rfl, rfl⟩

theorem Stutters.ready (h : m.Stutters m') {thread : PipelineThread} (hready : m.Ready feed thread) :
    m'.Ready feed thread := by
  cases thread with
  | handler thread =>
    rw [Ready, h.handler, h.unconsumed]
    exact hready
  | engine =>
    rw [Ready, h.writer, h.unconsumed]
    exact hready
  | trader =>
    rw [Ready, h.phase, h.reader, h.lock]
    exact hready

/-- Fewer steps of the handler, the ring buffer and the engine are left. -/
theorem work_lt_of_events (hless : 16 * m'.handler.work feed + m'.marketEvents.work + m'.publicBbo.writer.work <
    16 * m.handler.work feed + m.marketEvents.work + m.publicBbo.writer.work) : m'.work feed < m.work feed :=
  Prod.Lex.toLex_lt_toLex.mpr (Or.inl hless)

end

/-! ## What a step does -/

/-- A step of the exchange, the network or the handler. -/
theorem Follows.handler_progress (h : m.Follows feed) (hserved : m.handler.Served) {pick : Pick}
    (hsilent : pick.Silent) {handler : System}
    (hstep : m.handler.step feed pick = some handler) :
    ({ m with handler := handler } : Pipeline).work feed < m.work feed ∨
      handler = m.handler ∧ ∀ thread, pick.thread = some thread → ¬ m.Ready feed (.handler thread) := by
  by_cases hless : handler.work feed < m.handler.work feed
  · left
    apply work_lt_of_events
    show 16 * handler.work feed + m.marketEvents.work + m.publicBbo.writer.work < _
    omega
  · right
    refine ⟨((System.usesUp feed).change _ _ _ ⟨h.handler, hserved⟩ hsilent hstep).resolve_right hless, ?_⟩
    rintro thread hthread ⟨hbusy, -⟩
    exact hless ((h.handler.works hserved thread).resolve_left hbusy pick handler hthread hstep)

/-- The publisher waits for an item that has not been written, polls the full ring buffer, or goes on. -/
theorem Follows.publisher_progress (h : m.Follows feed) (hserved : m.handler.Served)
    (hstep : m.publisherStep = some m') :
    m'.work feed < m.work feed ∨ m.Stutters m' ∧ ¬ m.Ready feed (.handler .publisher) := by
  rw [Pipeline.publisherStep] at hstep
  cases hpc : m.handler.publisher with
  | waiting =>
    simp only [hpc] at hstep
    obtain ⟨handler, htake, rfl⟩ := Option.map_eq_some_iff.mp hstep
    have hpick : m.handler.step feed .publisher = some handler := htake
    have hsilent : Pick.publisher.Silent := trivial
    apply (h.handler_progress hserved hsilent hpick).imp_right
    rintro ⟨rfl, hpolls⟩
    exact ⟨.refl m, hpolls .publisher rfl⟩
  | publishing item =>
    obtain ⟨event, hdecode, handler, hpublish, -, -⟩ := h.handler.publish hpc
    simp only [hpc, hdecode, Option.bind_eq_bind, Option.bind_some] at hstep
    by_cases hlast : ∃ written currentHead, m.marketEvents.producer = .publishing written currentHead
    · left
      obtain ⟨written, currentHead, hproducer⟩ := hlast
      simp only [hproducer, hpublish, Option.map_some, Option.some.injEq] at hstep
      subst hstep
      have hbusy : ∀ s', m.handler.publisherStep = some s' → s'.work feed < m.handler.work feed := by
        apply h.handler.publisher_progress.resolve_left
        rw [hpc]
        rintro ⟨hwaiting, -⟩
        cases hwaiting
      have hless := hbusy handler hpublish
      have hevents := LazyRingMachine.publishing_work event hproducer
      apply work_lt_of_events
      show 16 * handler.work feed + (m.marketEvents.producerStep event).work + m.publicBbo.writer.work < _
      omega
    · push Not at hlast
      obtain ⟨hunconsumed, hprogress⟩ := h.ring.producer_progress event hlast
      have hm' : m' = { m with marketEvents := m.marketEvents.producerStep event } := by
        cases hproducer : m.marketEvents.producer with
        | publishing written currentHead => exact absurd hproducer (hlast written currentHead)
        | idle | claiming _ | claimed _ | written _ =>
          simp only [hproducer] at hstep
          exact (Option.some.inj hstep).symm
      subst hm'
      rcases hprogress with hless | ⟨hfull, hsame⟩
      · left
        apply work_lt_of_events
        show 16 * m.handler.work feed + (m.marketEvents.producerStep event).work + m.publicBbo.writer.work < _
        omega
      · right
        refine ⟨⟨rfl, hunconsumed, hsame, rfl, rfl, rfl, rfl, rfl⟩, ?_⟩
        rintro ⟨-, hready⟩
        rcases hready rfl with hwaiting | hroom
        · rw [hpc] at hwaiting
          cases hwaiting
        · exact absurd hfull (Nat.ne_of_lt hroom)

/-- A step of the pipeline is one of the handler or leaves the handler as it is. -/
theorem step_handler {turn : PipelineTurn} (hstep : m.step feed turn = some m') :
    m'.handler = m.handler ∨ ∃ pick, turn = .handler pick ∧ m.handler.step feed pick = some m'.handler := by
  cases turn with
  | handler pick =>
    by_cases hpick : pick = .publisher
    · subst hpick
      simp only [step, Pipeline.publisherStep] at hstep
      split at hstep
      · obtain ⟨handler, htake, rfl⟩ := Option.map_eq_some_iff.mp hstep
        exact Or.inr ⟨.publisher, rfl, htake⟩
      · obtain ⟨event, -, hstep⟩ := Option.bind_eq_some_iff.mp hstep
        split at hstep
        · obtain ⟨handler, hpublish, rfl⟩ := Option.map_eq_some_iff.mp hstep
          exact Or.inr ⟨.publisher, rfl, hpublish⟩
        · cases hstep
          exact Or.inl rfl
    · rw [step_pick hpick] at hstep
      obtain ⟨handler, hpicked, rfl⟩ := Option.map_eq_some_iff.mp hstep
      exact Or.inr ⟨pick, rfl, hpicked⟩
  | engine =>
    left
    simp only [step, Pipeline.engineStep] at hstep
    split at hstep
    · split at hstep
      · obtain ⟨⟨state, status⟩, -, hm'⟩ := Option.bind_eq_some_iff.mp hstep
        cases hm'
        rfl
      · cases hstep
        rfl
    · cases hstep
      rfl
  | trader risk room =>
    obtain ⟨publicBbo, trader, phase, rfl⟩ := traderStep_apart hstep
    exact Or.inl rfl
  | report update =>
    obtain ⟨publicBbo, trader, phase, rfl⟩ := reportStep_apart hstep
    exact Or.inl rfl

end Pipeline

section

attribute [local instance] priceHash idHash

end

end HftPipeline
