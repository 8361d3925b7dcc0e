import HftPipeline.Lib.Channel

/-!
# The ring buffers

`LazyRingBuffer` and `SharedRingBuffer`, each with a machine whose steps are the single loads
and stores of one producer and one consumer. Both are bounded channels: a step either does
nothing to the channel or is one of its steps.
-/
namespace HftPipeline

open BoundedChannel

/-- `CAPACITY`, a power of two that a `size_t` holds. -/
def ringCapacity (bits : Fin 64) : UInt64 := UInt64.ofNat (2 ^ bits.val)

/-- The slot `cursor & MASK`. -/
def ringSlot (bits : Fin 64) (cursor : UInt64) : Nat := (cursor &&& (ringCapacity bits - 1)).toNat

/-- A claim, push, read claim or pop that failed, and how many published items were not
consumed when it loaded the other side's cursor. -/
inductive RingFailure where
  | full (unconsumed : Nat)
  | empty (unconsumed : Nat)
  deriving DecidableEq, Repr

/-- It failed because the buffer was full, or empty. -/
def RingFailure.Justified (bits : Fin 64) : RingFailure → Prop
  | .full unconsumed => unconsumed = 2 ^ bits.val
  | .empty unconsumed => unconsumed = 0

/-! ## Claim, then publish -/

structure LazyRingBuffer (T : Type) (bits : Fin 64) where
  head : UInt64
  tail : UInt64
  buffer : Nat → T

namespace LazyRingBuffer

variable {T : Type} {bits : Fin 64}

def empty (head tail : UInt64) : Bool := head == tail

def full (bits : Fin 64) (head tail : UInt64) : Bool := head - tail == ringCapacity bits

/-- Between two loads of `try_get_head_ref`, with a claimed slot, and before and within
`publish`. -/
inductive ProducerPc (T : Type) where
  | idle
  | claiming (currentHead : UInt64)
  | claimed (slot : Nat)
  | written (item : T)
  | publishing (item : T) (currentHead : UInt64)
  deriving DecidableEq

/-- Between two loads of `try_get_tail_ref`, with a claimed slot, and before and within
`consume`. -/
inductive ConsumerPc where
  | idle
  | claiming (currentTail : UInt64)
  | claimed (slot : Nat)
  | read
  | consuming (currentTail : UInt64)
  deriving DecidableEq

end LazyRingBuffer

open LazyRingBuffer in
/-- The buffer and its two threads, the items published, read and consumed, and the claims
that failed. -/
structure LazyRingMachine (T : Type) (bits : Fin 64) where
  ring : LazyRingBuffer T bits
  producer : ProducerPc T
  consumer : ConsumerPc
  published : List T
  obtained : List T
  consumed : Nat
  failures : List RingFailure

/-- A step of the producer, with the item it writes if this is where it writes one, or a step
of the consumer. -/
inductive LazyRingTurn (T : Type) where
  | producer (item : T)
  | consumer

namespace LazyRingMachine

variable {T : Type} {bits : Fin 64}

def init (memory : Nat → T) : LazyRingMachine T bits := ⟨⟨0, 0, memory⟩, .idle, .idle, [], [], 0, []⟩

def unconsumed (m : LazyRingMachine T bits) : Nat := m.published.length - m.consumed

def producerStep (m : LazyRingMachine T bits) (item : T) : LazyRingMachine T bits :=
  match m.producer with
  | .idle => { m with producer := .claiming m.ring.head }
  | .claiming currentHead =>
    if LazyRingBuffer.full bits currentHead m.ring.tail then
      { m with producer := .idle, failures := m.failures ++ [.full m.unconsumed] }
    else { m with producer := .claimed (ringSlot bits currentHead) }
  | .claimed slot =>
    { m with
      ring := { m.ring with buffer := Function.update m.ring.buffer slot item }
      producer := .written item }
  | .written item => { m with producer := .publishing item m.ring.head }
  | .publishing item currentHead =>
    { m with
      ring := { m.ring with head := currentHead + 1 }
      producer := .idle
      published := m.published ++ [item] }

def consumerStep (m : LazyRingMachine T bits) : LazyRingMachine T bits :=
  match m.consumer with
  | .idle => { m with consumer := .claiming m.ring.tail }
  | .claiming currentTail =>
    if LazyRingBuffer.empty m.ring.head currentTail then
      { m with consumer := .idle, failures := m.failures ++ [.empty m.unconsumed] }
    else { m with consumer := .claimed (ringSlot bits currentTail) }
  | .claimed slot => { m with consumer := .read, obtained := m.obtained ++ [m.ring.buffer slot] }
  | .read => { m with consumer := .consuming m.ring.tail }
  | .consuming currentTail =>
    { m with
      ring := { m.ring with tail := currentTail + 1 }
      consumer := .idle
      consumed := m.consumed + 1 }

def step (m : LazyRingMachine T bits) : LazyRingTurn T → LazyRingMachine T bits
  | .producer item => m.producerStep item
  | .consumer => m.consumerStep

def run (m : LazyRingMachine T bits) (turns : List (LazyRingTurn T)) : LazyRingMachine T bits :=
  turns.foldl step m

/-- The slot the producer may write to. -/
def writable (m : LazyRingMachine T bits) : Option Nat :=
  match m.producer with
  | .claimed slot => some slot
  | _ => none

end LazyRingMachine

/-! ## Push and pop -/

structure SharedRingBuffer (T : Type) (bits : Fin 64) where
  head : UInt64
  tail : UInt64
  buffer : Nat → T

namespace SharedRingBuffer

variable {T : Type} {bits : Fin 64}

def empty (head tail : UInt64) : Bool := head == tail

def full (bits : Fin 64) (head tail : UInt64) : Bool := tail - head == ringCapacity bits

/-- In `try_push`: before the load of the other cursor, with a free slot, and before the
store of the own one. -/
inductive ProducerPc (T : Type) where
  | idle
  | checking (item : T) (currentTail : UInt64)
  | constructing (item : T) (currentTail : UInt64)
  | storing (item : T) (currentTail : UInt64)
  deriving DecidableEq

/-- In `try_pop`, the same. -/
inductive ConsumerPc (T : Type) where
  | idle
  | checking (currentHead : UInt64)
  | copying (currentHead : UInt64)
  | storing (value : T) (currentHead : UInt64)
  deriving DecidableEq

end SharedRingBuffer

open SharedRingBuffer in
structure SharedRingMachine (T : Type) (bits : Fin 64) where
  ring : SharedRingBuffer T bits
  producer : ProducerPc T
  consumer : ConsumerPc T
  published : List T
  obtained : List T
  consumed : Nat
  failures : List RingFailure

/-- A step of the producer, with the item if it enters `try_push`, or a step of the consumer. -/
inductive SharedRingTurn (T : Type) where
  | producer (item : T)
  | consumer

namespace SharedRingMachine

variable {T : Type} {bits : Fin 64}

def init (memory : Nat → T) : SharedRingMachine T bits := ⟨⟨0, 0, memory⟩, .idle, .idle, [], [], 0, []⟩

def unconsumed (m : SharedRingMachine T bits) : Nat := m.published.length - m.consumed

def producerStep (m : SharedRingMachine T bits) (item : T) : SharedRingMachine T bits :=
  match m.producer with
  | .idle => { m with producer := .checking item m.ring.tail }
  | .checking item currentTail =>
    if SharedRingBuffer.full bits m.ring.head currentTail then
      { m with producer := .idle, failures := m.failures ++ [.full m.unconsumed] }
    else { m with producer := .constructing item currentTail }
  | .constructing item currentTail =>
    { m with
      ring := { m.ring with buffer := Function.update m.ring.buffer (ringSlot bits currentTail) item }
      producer := .storing item currentTail }
  | .storing item currentTail =>
    { m with
      ring := { m.ring with tail := currentTail + 1 }
      producer := .idle
      published := m.published ++ [item] }

def consumerStep (m : SharedRingMachine T bits) : SharedRingMachine T bits :=
  match m.consumer with
  | .idle => { m with consumer := .checking m.ring.head }
  | .checking currentHead =>
    if SharedRingBuffer.empty currentHead m.ring.tail then
      { m with consumer := .idle, failures := m.failures ++ [.empty m.unconsumed] }
    else { m with consumer := .copying currentHead }
  | .copying currentHead =>
    let value := m.ring.buffer (ringSlot bits currentHead)
    { m with consumer := .storing value currentHead, obtained := m.obtained ++ [value] }
  | .storing _ currentHead =>
    { m with
      ring := { m.ring with head := currentHead + 1 }
      consumer := .idle
      consumed := m.consumed + 1 }

def step (m : SharedRingMachine T bits) : SharedRingTurn T → SharedRingMachine T bits
  | .producer item => m.producerStep item
  | .consumer => m.consumerStep

def run (m : SharedRingMachine T bits) (turns : List (SharedRingTurn T)) : SharedRingMachine T bits :=
  turns.foldl step m

/-- The slot the producer may write to. -/
def writable (m : SharedRingMachine T bits) : Option Nat :=
  match m.producer with
  | .constructing _ currentTail => some (ringSlot bits currentTail)
  | _ => none

end SharedRingMachine

/-! ## What the words say -/

section Cursors

variable {T : Type} {bits : Fin 64} {c : Channel T} {producing consuming : UInt64}

theorem ringSlot_eq {cursor : UInt64} {count : Nat} (h : Shows cursor count) :
    ringSlot bits cursor = count % 2 ^ bits.val := h.slot bits.isLt

theorem unconsumed_lt (h : Sound (2 ^ bits.val) c) : c.published.length - c.consumed < 2 ^ 64 := by
  have hle := h.unconsumed_le
  rw [Channel.unconsumed] at hle
  have hpow : 2 ^ bits.val < 2 ^ 64 := Nat.pow_lt_pow_right (by omega) bits.isLt
  omega

/-- The test for a full buffer is right. -/
theorem sub_eq_ringCapacity_iff (h : Sound (2 ^ bits.val) c) (hproducing : Shows producing c.published.length)
    (hconsuming : Shows consuming c.consumed) :
    producing - consuming = ringCapacity bits ↔ c.unconsumed = 2 ^ bits.val := by
  have hpow : 2 ^ bits.val < 2 ^ 64 := Nat.pow_lt_pow_right (by omega) bits.isLt
  have hcapacity : (ringCapacity bits).toNat = 2 ^ bits.val := UInt64.toNat_ofNat_of_lt hpow
  rw [← UInt64.toNat_inj, hproducing.toNat_sub hconsuming h.consumed_le (unconsumed_lt h), hcapacity]
  rfl

/-- The test for an empty buffer is right. -/
theorem cursors_eq_iff (h : Sound (2 ^ bits.val) c) (hproducing : Shows producing c.published.length)
    (hconsuming : Shows consuming c.consumed) : producing = consuming ↔ c.unconsumed = 0 :=
  hproducing.eq_iff hconsuming h.consumed_le (unconsumed_lt h)

end Cursors

/-- One more failure, justified by the buffer at this moment. -/
theorem justified_append {bits : Fin 64} {failures : List RingFailure} (h : ∀ f ∈ failures, f.Justified bits)
    {f : RingFailure} (hf : f.Justified bits) : ∀ f' ∈ failures ++ [f], f'.Justified bits := by
  intro f' hf'
  rcases List.mem_append.mp hf' with hold | hnew
  · exact h f' hold
  · rw [List.mem_singleton.mp hnew]
    exact hf

/-! ## The lazy ring buffer as a channel -/

namespace LazyRingBuffer

variable {T : Type}

def ProducerPc.stage : ProducerPc T → Producing T
  | .idle | .claiming _ => .idle
  | .claimed _ => .claimed
  | .written item | .publishing item _ => .written item

def ConsumerPc.stage : ConsumerPc → Consuming
  | .idle | .claiming _ => .idle
  | .claimed _ => .claimed
  | .read | .consuming _ => .taken

end LazyRingBuffer

namespace LazyRingMachine

variable {T : Type} {bits : Fin 64} {m : LazyRingMachine T bits}

def toChannel (m : LazyRingMachine T bits) : Channel T :=
  ⟨m.published, m.obtained, m.consumed, m.ring.buffer, m.producer.stage, m.consumer.stage⟩

/-- What each side has loaded or claimed is its own cursor or its slot. -/
def ProducerSound (m : LazyRingMachine T bits) : LazyRingBuffer.ProducerPc T → Prop
  | .idle | .written _ => True
  | .claiming currentHead | .publishing _ currentHead => currentHead = m.ring.head
  | .claimed slot => slot = m.published.length % 2 ^ bits.val

def ConsumerSound (m : LazyRingMachine T bits) : LazyRingBuffer.ConsumerPc → Prop
  | .idle | .read => True
  | .claiming currentTail | .consuming currentTail => currentTail = m.ring.tail
  | .claimed slot => slot = m.consumed % 2 ^ bits.val

structure Sound (m : LazyRingMachine T bits) : Prop where
  channel : BoundedChannel.Sound (2 ^ bits.val) m.toChannel
  head : Shows m.ring.head m.published.length
  tail : Shows m.ring.tail m.consumed
  producer : m.ProducerSound m.producer
  consumer : m.ConsumerSound m.consumer
  failures : ∀ f ∈ m.failures, f.Justified bits

theorem sound_init (memory : Nat → T) : (init memory : LazyRingMachine T bits).Sound :=
  ⟨sound_start memory, rfl, rfl, trivial, trivial, fun _ hf => by cases hf⟩

theorem Sound.producerStep (h : m.Sound) (item : T) : (m.producerStep item).Sound := by
  have hchannel := h.channel
  have hproducer := h.producer
  rw [LazyRingMachine.producerStep]
  split
  · rename_i hpc
    simp only [toChannel, hpc] at hchannel
    exact ⟨hchannel, h.head, h.tail, rfl, h.consumer, h.failures⟩
  · rename_i currentHead hpc
    rw [hpc] at hproducer
    have hshows : Shows currentHead m.published.length := hproducer ▸ h.head
    have htest := sub_eq_ringCapacity_iff hchannel hshows h.tail
    simp only [toChannel, hpc] at hchannel
    split
    · rename_i hfull
      exact ⟨hchannel, h.head, h.tail, trivial, h.consumer,
        justified_append h.failures (htest.mp (beq_iff_eq.mp hfull))⟩
    · rename_i hroom
      refine ⟨hchannel.step (.claim _ rfl ?_), h.head, h.tail, ringSlot_eq hshows, h.consumer, h.failures⟩
      exact fun hunconsumed => hroom (beq_iff_eq.mpr (htest.mpr hunconsumed))
  · rename_i slot hpc
    rw [hpc] at hproducer
    have hslot : slot = m.published.length % 2 ^ bits.val := hproducer
    simp only [toChannel, hpc] at hchannel
    rw [hslot]
    exact ⟨hchannel.step (.write _ item rfl), h.head, h.tail, trivial, h.consumer, h.failures⟩
  · rename_i item hpc
    simp only [toChannel, hpc] at hchannel
    exact ⟨hchannel, h.head, h.tail, rfl, h.consumer, h.failures⟩
  · rename_i item currentHead hpc
    rw [hpc] at hproducer
    have hshows : Shows currentHead m.published.length := hproducer ▸ h.head
    simp only [toChannel, hpc] at hchannel
    refine ⟨hchannel.step (.publish _ item rfl), ?_, h.tail, trivial, h.consumer, h.failures⟩
    show Shows (currentHead + 1) (m.published ++ [item]).length
    rw [List.length_append, List.length_singleton]
    exact hshows.add_one

theorem Sound.consumerStep (h : m.Sound) : m.consumerStep.Sound := by
  have hchannel := h.channel
  have hconsumer := h.consumer
  rw [LazyRingMachine.consumerStep]
  split
  · rename_i hpc
    simp only [toChannel, hpc] at hchannel
    exact ⟨hchannel, h.head, h.tail, h.producer, rfl, h.failures⟩
  · rename_i currentTail hpc
    rw [hpc] at hconsumer
    have hshows : Shows currentTail m.consumed := hconsumer ▸ h.tail
    have htest := cursors_eq_iff hchannel h.head hshows
    simp only [toChannel, hpc] at hchannel
    split
    · rename_i hempty
      exact ⟨hchannel, h.head, h.tail, h.producer, trivial,
        justified_append h.failures (htest.mp (beq_iff_eq.mp hempty))⟩
    · rename_i hitem
      refine ⟨hchannel.step (.take _ rfl ?_), h.head, h.tail, h.producer, ringSlot_eq hshows, h.failures⟩
      exact fun hunconsumed => hitem (beq_iff_eq.mpr (htest.mpr hunconsumed))
  · rename_i slot hpc
    rw [hpc] at hconsumer
    have hslot : slot = m.consumed % 2 ^ bits.val := hconsumer
    simp only [toChannel, hpc] at hchannel
    rw [hslot]
    exact ⟨hchannel.step (.read _ rfl), h.head, h.tail, h.producer, trivial, h.failures⟩
  · rename_i hpc
    simp only [toChannel, hpc] at hchannel
    exact ⟨hchannel, h.head, h.tail, h.producer, rfl, h.failures⟩
  · rename_i currentTail hpc
    rw [hpc] at hconsumer
    have hshows : Shows currentTail m.consumed := hconsumer ▸ h.tail
    simp only [toChannel, hpc] at hchannel
    exact ⟨hchannel.step (.release _ rfl), h.head, hshows.add_one, h.producer, trivial, h.failures⟩

theorem Sound.run (h : m.Sound) (turns : List (LazyRingTurn T)) : (m.run turns).Sound := by
  induction turns generalizing m with
  | nil => exact h
  | cons t turns ih =>
    cases t with
    | producer item => exact ih (h.producerStep item)
    | consumer => exact ih h.consumerStep

end LazyRingMachine

/-! ## The shared ring buffer as a channel -/

namespace SharedRingBuffer

variable {T : Type}

def ProducerPc.stage : ProducerPc T → Producing T
  | .idle | .checking _ _ => .idle
  | .constructing _ _ => .claimed
  | .storing item _ => .written item

def ConsumerPc.stage : ConsumerPc T → Consuming
  | .idle | .checking _ => .idle
  | .copying _ => .claimed
  | .storing _ _ => .taken

end SharedRingBuffer

namespace SharedRingMachine

variable {T : Type} {bits : Fin 64} {m : SharedRingMachine T bits}

def toChannel (m : SharedRingMachine T bits) : Channel T :=
  ⟨m.published, m.obtained, m.consumed, m.ring.buffer, m.producer.stage, m.consumer.stage⟩

/-- What each side has loaded is its own cursor. -/
def ProducerSound (m : SharedRingMachine T bits) : SharedRingBuffer.ProducerPc T → Prop
  | .idle => True
  | .checking _ currentTail | .constructing _ currentTail | .storing _ currentTail => currentTail = m.ring.tail

def ConsumerSound (m : SharedRingMachine T bits) : SharedRingBuffer.ConsumerPc T → Prop
  | .idle => True
  | .checking currentHead | .copying currentHead | .storing _ currentHead => currentHead = m.ring.head

structure Sound (m : SharedRingMachine T bits) : Prop where
  channel : BoundedChannel.Sound (2 ^ bits.val) m.toChannel
  tail : Shows m.ring.tail m.published.length
  head : Shows m.ring.head m.consumed
  producer : m.ProducerSound m.producer
  consumer : m.ConsumerSound m.consumer
  failures : ∀ f ∈ m.failures, f.Justified bits

theorem sound_init (memory : Nat → T) : (init memory : SharedRingMachine T bits).Sound :=
  ⟨sound_start memory, rfl, rfl, trivial, trivial, fun _ hf => by cases hf⟩

theorem Sound.producerStep (h : m.Sound) (item : T) : (m.producerStep item).Sound := by
  have hchannel := h.channel
  have hproducer := h.producer
  rw [SharedRingMachine.producerStep]
  split
  · rename_i hpc
    simp only [toChannel, hpc] at hchannel
    exact ⟨hchannel, h.tail, h.head, rfl, h.consumer, h.failures⟩
  · rename_i item currentTail hpc
    rw [hpc] at hproducer
    have hshows : Shows currentTail m.published.length := hproducer ▸ h.tail
    have htest := sub_eq_ringCapacity_iff hchannel hshows h.head
    simp only [toChannel, hpc] at hchannel
    split
    · rename_i hfull
      exact ⟨hchannel, h.tail, h.head, trivial, h.consumer,
        justified_append h.failures (htest.mp (beq_iff_eq.mp hfull))⟩
    · rename_i hroom
      refine ⟨hchannel.step (.claim _ rfl ?_), h.tail, h.head, hproducer, h.consumer, h.failures⟩
      exact fun hunconsumed => hroom (beq_iff_eq.mpr (htest.mpr hunconsumed))
  · rename_i item currentTail hpc
    rw [hpc] at hproducer
    have hshows : Shows currentTail m.published.length := hproducer ▸ h.tail
    simp only [toChannel, hpc] at hchannel
    rw [ringSlot_eq hshows]
    exact ⟨hchannel.step (.write _ item rfl), h.tail, h.head, hproducer, h.consumer, h.failures⟩
  · rename_i item currentTail hpc
    rw [hpc] at hproducer
    have hshows : Shows currentTail m.published.length := hproducer ▸ h.tail
    simp only [toChannel, hpc] at hchannel
    refine ⟨hchannel.step (.publish _ item rfl), ?_, h.head, trivial, h.consumer, h.failures⟩
    show Shows (currentTail + 1) (m.published ++ [item]).length
    rw [List.length_append, List.length_singleton]
    exact hshows.add_one

theorem Sound.consumerStep (h : m.Sound) : m.consumerStep.Sound := by
  have hchannel := h.channel
  have hconsumer := h.consumer
  rw [SharedRingMachine.consumerStep]
  split
  · rename_i hpc
    simp only [toChannel, hpc] at hchannel
    exact ⟨hchannel, h.tail, h.head, h.producer, rfl, h.failures⟩
  · rename_i currentHead hpc
    rw [hpc] at hconsumer
    have hshows : Shows currentHead m.consumed := hconsumer ▸ h.head
    have htest := cursors_eq_iff hchannel h.tail hshows
    simp only [toChannel, hpc] at hchannel
    split
    · rename_i hempty
      exact ⟨hchannel, h.tail, h.head, h.producer, trivial,
        justified_append h.failures (htest.mp (beq_iff_eq.mp hempty).symm)⟩
    · rename_i hitem
      refine ⟨hchannel.step (.take _ rfl ?_), h.tail, h.head, h.producer, hconsumer, h.failures⟩
      exact fun hunconsumed => hitem (beq_iff_eq.mpr (htest.mpr hunconsumed).symm)
  · rename_i currentHead hpc
    rw [hpc] at hconsumer
    have hshows : Shows currentHead m.consumed := hconsumer ▸ h.head
    simp only [toChannel, hpc] at hchannel
    simp only [ringSlot_eq hshows]
    exact ⟨hchannel.step (.read _ rfl), h.tail, h.head, h.producer, hconsumer, h.failures⟩
  · rename_i value currentHead hpc
    rw [hpc] at hconsumer
    have hshows : Shows currentHead m.consumed := hconsumer ▸ h.head
    simp only [toChannel, hpc] at hchannel
    exact ⟨hchannel.step (.release _ rfl), h.tail, hshows.add_one, h.producer, trivial, h.failures⟩

theorem Sound.run (h : m.Sound) (turns : List (SharedRingTurn T)) : (m.run turns).Sound := by
  induction turns generalizing m with
  | nil => exact h
  | cons t turns ih =>
    cases t with
    | producer item => exact ih (h.producerStep item)
    | consumer => exact ih h.consumerStep

end SharedRingMachine

/-! ## Both channels -/

/-- What holds of a buffer at a moment of a run: the items read are the first of those
published, those not consumed fit, the slot the producer may write to holds none of them,
and every failure was of a full or an empty buffer. -/
structure RingSafe {T : Type} (bits : Fin 64) (published obtained : List T) (consumed : Nat)
    (writable : Option Nat) (failures : List RingFailure) : Prop where
  obtained_prefix : obtained <+: published
  consumed_le : consumed ≤ obtained.length
  unconsumed_le : published.length - consumed ≤ 2 ^ bits.val
  slot_free : ∀ slot, writable = some slot → ∀ i, consumed ≤ i → i < published.length → i % 2 ^ bits.val ≠ slot
  justified : ∀ f ∈ failures, f.Justified bits

theorem LazyRingMachine.Sound.safe {T : Type} {bits : Fin 64} {m : LazyRingMachine T bits} (h : m.Sound) :
    RingSafe bits m.published m.obtained m.consumed m.writable m.failures := by
  refine ⟨h.channel.obtained_prefix, h.channel.consumed_le_obtained, h.channel.unconsumed_le, ?_, h.failures⟩
  intro slot hslot i hi hlt
  have hproducer := h.producer
  rw [LazyRingMachine.writable] at hslot
  split at hslot
  · rename_i slot' hpc
    rw [hpc] at hproducer
    rw [← Option.some.inj hslot, show slot' = _ from hproducer]
    refine h.channel.slot_free ?_ hi hlt
    simp only [LazyRingMachine.toChannel, hpc]
    exact nofun
  · cases hslot

theorem SharedRingMachine.Sound.safe {T : Type} {bits : Fin 64} {m : SharedRingMachine T bits} (h : m.Sound) :
    RingSafe bits m.published m.obtained m.consumed m.writable m.failures := by
  refine ⟨h.channel.obtained_prefix, h.channel.consumed_le_obtained, h.channel.unconsumed_le, ?_, h.failures⟩
  intro slot hslot i hi hlt
  have hproducer := h.producer
  rw [SharedRingMachine.writable] at hslot
  split at hslot
  · rename_i item currentTail hpc
    rw [hpc] at hproducer
    have hshows : Shows currentTail m.published.length := hproducer ▸ h.tail
    rw [← Option.some.inj hslot, ringSlot_eq hshows]
    refine h.channel.slot_free ?_ hi hlt
    simp only [SharedRingMachine.toChannel, hpc]
    exact nofun
  · cases hslot

/-- In every interleaving of one producer and one consumer, of any length. -/
theorem ring_buffers_safe {T : Type} (bits : Fin 64) (memory : Nat → T) :
    (∀ turns, let m := (LazyRingMachine.init memory : LazyRingMachine T bits).run turns
      RingSafe bits m.published m.obtained m.consumed m.writable m.failures) ∧
    ∀ turns, let m := (SharedRingMachine.init memory : SharedRingMachine T bits).run turns
      RingSafe bits m.published m.obtained m.consumed m.writable m.failures :=
  ⟨fun turns => ((LazyRingMachine.sound_init memory).run turns).safe,
    fun turns => ((SharedRingMachine.sound_init memory).run turns).safe⟩

/-- Two slots: the third claim fails, an item is read, and the claim succeeds. -/
example :
    let producer := fun items => items.flatMap fun item => List.replicate 5 (LazyRingTurn.producer (T := Nat) item)
    let m := (LazyRingMachine.init (fun _ => 0) : LazyRingMachine Nat 1).run
      (producer [10, 11] ++ [.producer 12, .producer 12] ++ List.replicate 5 .consumer ++ producer [12])
    m.failures = [.full 2] ∧ m.obtained = [10] ∧ m.published = [10, 11, 12] := by
  decide +kernel

end HftPipeline
