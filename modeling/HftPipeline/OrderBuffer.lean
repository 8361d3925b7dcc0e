import HftPipeline.MarketMaker
import HftPipeline.RingBuffers

/-!
# The order buffer

The strategy and the trader share a `SingleThreadRingBuffer`. Its two cursors only grow, modulo
`2 ^ 64`, and are masked for the slot; a push overwrites whatever was popped from it. Whatever
calls are made of it, it answers them as a queue with room for as many items as it has slots, and
with the configured number of slots as the `StrategyOrderBuffer` that the strategy fills.
-/
namespace HftPipeline

open BoundedChannel

/-- `buffer` holds `2 ^ bits` slots. -/
structure SingleThreadRingBuffer (T : Type) (bits : Fin 64) where
  buffer : Nat → T
  head : UInt64
  tail : UInt64

/-- A call of a member function. -/
inductive BufferCall (T : Type) where
  | tryPush (item : T)
  | tryFront
  | pop
  | clear
  | empty
  | full
  | size
  | available

/-- What it returns. `try_front` returns what the slot it points to holds. -/
inductive BufferAnswer (T : Type) where
  | done
  | flag (value : Bool)
  | front (item : Option T)
  | count (value : Nat)
  deriving DecidableEq, Repr

namespace SingleThreadRingBuffer

variable {T : Type} {bits : Fin 64}

def new (memory : Nat → T) : SingleThreadRingBuffer T bits := ⟨memory, 0, 0⟩

def empty (b : SingleThreadRingBuffer T bits) : Bool := b.head == b.tail

def full (b : SingleThreadRingBuffer T bits) : Bool := b.head - b.tail == ringCapacity bits

def size (b : SingleThreadRingBuffer T bits) : UInt64 := b.head - b.tail

def available (b : SingleThreadRingBuffer T bits) : UInt64 := ringCapacity bits - b.size

def tryPush (b : SingleThreadRingBuffer T bits) (item : T) : Bool × SingleThreadRingBuffer T bits :=
  if b.full then (false, b)
  else
    (true, { b with buffer := Function.update b.buffer (ringSlot bits b.head) item, head := b.head + 1 })

def tryFront (b : SingleThreadRingBuffer T bits) : Option T :=
  if b.empty then none else some (b.buffer (ringSlot bits b.tail))

def pop (b : SingleThreadRingBuffer T bits) : SingleThreadRingBuffer T bits :=
  if ¬ b.empty then { b with tail := b.tail + 1 } else b

def clear (b : SingleThreadRingBuffer T bits) : SingleThreadRingBuffer T bits := { b with tail := b.head }

def call (b : SingleThreadRingBuffer T bits) : BufferCall T → BufferAnswer T × SingleThreadRingBuffer T bits
  | .tryPush item => (.flag (b.tryPush item).1, (b.tryPush item).2)
  | .tryFront => (.front b.tryFront, b)
  | .pop => (.done, b.pop)
  | .clear => (.done, b.clear)
  | .empty => (.flag b.empty, b)
  | .full => (.flag b.full, b)
  | .size => (.count b.size.toNat, b)
  | .available => (.count b.available.toNat, b)

/-- The answers to calls, one after the other. -/
def answers (b : SingleThreadRingBuffer T bits) : List (BufferCall T) → List (BufferAnswer T)
  | [] => []
  | c :: calls => (b.call c).1 :: (b.call c).2.answers calls

end SingleThreadRingBuffer

/-! ## A bounded queue -/

namespace BoundedQueue

variable {T : Type}

/-- A queue with room for `capacity` items, oldest first. -/
def call (capacity : Nat) (items : List T) : BufferCall T → BufferAnswer T × List T
  | .tryPush item =>
    if items.length = capacity then (.flag false, items) else (.flag true, items ++ [item])
  | .tryFront => (.front items.head?, items)
  | .pop => (.done, items.tail)
  | .clear => (.done, [])
  | .empty => (.flag items.isEmpty, items)
  | .full => (.flag (items.length == capacity), items)
  | .size => (.count items.length, items)
  | .available => (.count (capacity - items.length), items)

def answers (capacity : Nat) (items : List T) : List (BufferCall T) → List (BufferAnswer T)
  | [] => []
  | c :: calls => (call capacity items c).1 :: answers capacity (call capacity items c).2 calls

end BoundedQueue

/-! ## The ring buffer is a bounded queue -/

namespace SingleThreadRingBuffer

variable {T : Type} {bits : Fin 64} {b : SingleThreadRingBuffer T bits} {items : List T}

/-- The cursors show how many items have been popped and pushed, and item `i` of the queue is in the
slot of the number that it was pushed under. -/
structure Holds (b : SingleThreadRingBuffer T bits) (items : List T) (popped : Nat) : Prop where
  tail : Shows b.tail popped
  head : Shows b.head (popped + items.length)
  fits : items.length ≤ 2 ^ bits.val
  slots : ∀ i item, items[i]? = some item → b.buffer ((popped + i) % 2 ^ bits.val) = item

theorem holds_new (memory : Nat → T) : (new memory : SingleThreadRingBuffer T bits).Holds [] 0 where
  tail := rfl
  head := rfl
  fits := Nat.zero_le _
  slots := by simp

variable {popped : Nat}

theorem capacity_lt (bits : Fin 64) : 2 ^ bits.val < 2 ^ 64 := Nat.pow_lt_pow_right (by omega) bits.isLt

theorem ringCapacity_toNat (bits : Fin 64) : (ringCapacity bits).toNat = 2 ^ bits.val :=
  UInt64.toNat_ofNat_of_lt (capacity_lt bits)

theorem Holds.size (h : b.Holds items popped) : b.size.toNat = items.length := by
  have hcapacity := capacity_lt bits
  have hfits := h.fits
  rw [SingleThreadRingBuffer.size, h.head.toNat_sub h.tail (Nat.le_add_right _ _) (by omega)]
  omega

theorem Holds.empty (h : b.Holds items popped) : b.empty = items.isEmpty := by
  have hcapacity := capacity_lt bits
  have hfits := h.fits
  have hsame := h.head.eq_iff h.tail (Nat.le_add_right _ _) (by omega)
  rw [Bool.eq_iff_iff, List.isEmpty_iff_length_eq_zero, SingleThreadRingBuffer.empty, beq_iff_eq, hsame]
  omega

theorem Holds.full (h : b.Holds items popped) : b.full = (items.length == 2 ^ bits.val) := by
  rw [Bool.eq_iff_iff, SingleThreadRingBuffer.full, beq_iff_eq, beq_iff_eq, ← UInt64.toNat_inj,
    ringCapacity_toNat, ← h.size]
  rfl

theorem Holds.available (h : b.Holds items popped) : b.available.toNat = 2 ^ bits.val - items.length := by
  have hle : b.size ≤ ringCapacity bits := by
    rw [UInt64.le_iff_toNat_le, h.size, ringCapacity_toNat]
    exact h.fits
  rw [SingleThreadRingBuffer.available, UInt64.toNat_sub_of_le _ _ hle, h.size, ringCapacity_toNat]

theorem Holds.tryFront (h : b.Holds items popped) : b.tryFront = items.head? := by
  rw [SingleThreadRingBuffer.tryFront, h.empty]
  cases items with
  | nil => rfl
  | cons item rest =>
    have hslot := h.slots 0 item rfl
    rw [Nat.add_zero, ← ringSlot_eq h.tail] at hslot
    rw [hslot]
    rfl

/-- The slot of a push is that of no item in the queue. -/
theorem Holds.push (h : b.Holds items popped) (hroom : items.length ≠ 2 ^ bits.val) (item : T) :
    ({ b with buffer := Function.update b.buffer (ringSlot bits b.head) item, head := b.head + 1 } :
      SingleThreadRingBuffer T bits).Holds (items ++ [item]) popped := by
  have hfits := h.fits
  refine ⟨h.tail, ?_, ?_, ?_⟩
  · rw [List.length_append, List.length_singleton, ← Nat.add_assoc]
    exact h.head.add_one
  · rw [List.length_append, List.length_singleton]
    omega
  · intro i item' hitem
    show Function.update b.buffer (ringSlot bits b.head) item ((popped + i) % 2 ^ bits.val) = item'
    rw [ringSlot_eq h.head]
    rcases Nat.lt_trichotomy i items.length with hless | heq | hgreater
    · rw [List.getElem?_append_left hless] at hitem
      rw [Function.update_of_ne, h.slots i item' hitem]
      exact mod_ne_of_lap (by omega) (by omega)
    · subst heq
      rw [List.getElem?_concat_length, Option.some.injEq] at hitem
      rw [Function.update_self, hitem]
    · rw [List.getElem?_eq_none (by rw [List.length_append, List.length_singleton]; omega)] at hitem
      cases hitem

theorem Holds.tail_of_cons {item : T} (h : b.Holds (item :: items) popped) :
    ({ b with tail := b.tail + 1 } : SingleThreadRingBuffer T bits).Holds items (popped + 1) := by
  refine ⟨h.tail.add_one, ?_, (Nat.le_succ _).trans h.fits, ?_⟩
  · rw [Nat.add_assoc, Nat.add_comm 1]
    exact h.head
  · intro i item' hitem
    rw [Nat.add_assoc, Nat.add_comm 1]
    exact h.slots (i + 1) item' hitem

theorem Holds.clear (h : b.Holds items popped) : b.clear.Holds [] (popped + items.length) where
  tail := h.head
  head := h.head
  fits := Nat.zero_le _
  slots := by simp

/-- Each call is answered as by the queue. -/
theorem Holds.call (h : b.Holds items popped) (c : BufferCall T) :
    (b.call c).1 = (BoundedQueue.call (2 ^ bits.val) items c).1 ∧
      ∃ popped', (b.call c).2.Holds (BoundedQueue.call (2 ^ bits.val) items c).2 popped' := by
  cases c with
  | tryPush item =>
    simp only [SingleThreadRingBuffer.call, SingleThreadRingBuffer.tryPush, BoundedQueue.call, h.full]
    by_cases hfull : items.length = 2 ^ bits.val
    · rw [if_pos (beq_iff_eq.mpr hfull), if_pos hfull]
      exact ⟨rfl, popped, h⟩
    · rw [if_neg (by rw [beq_iff_eq]; exact hfull), if_neg hfull]
      exact ⟨rfl, popped, h.push hfull item⟩
  | tryFront => exact ⟨congrArg BufferAnswer.front h.tryFront, popped, h⟩
  | pop =>
    refine ⟨rfl, ?_⟩
    simp only [SingleThreadRingBuffer.call, SingleThreadRingBuffer.pop, BoundedQueue.call, h.empty]
    cases items with
    | nil => exact ⟨popped, h⟩
    | cons item rest => exact ⟨popped + 1, h.tail_of_cons⟩
  | clear => exact ⟨rfl, popped + items.length, h.clear⟩
  | empty => exact ⟨congrArg BufferAnswer.flag h.empty, popped, h⟩
  | full => exact ⟨congrArg BufferAnswer.flag h.full, popped, h⟩
  | size => exact ⟨congrArg BufferAnswer.count h.size, popped, h⟩
  | available => exact ⟨congrArg BufferAnswer.count h.available, popped, h⟩

theorem Holds.answers (h : b.Holds items popped) (calls : List (BufferCall T)) :
    b.answers calls = BoundedQueue.answers (2 ^ bits.val) items calls := by
  induction calls generalizing b items popped with
  | nil => rfl
  | cons c calls ih =>
    obtain ⟨hanswer, popped', h'⟩ := h.call c
    rw [SingleThreadRingBuffer.answers, BoundedQueue.answers, hanswer, ih h']

end SingleThreadRingBuffer

/-! ## The buffer of the strategy and the trader -/

/-- `SingleThreadRingBuffer<OutboundOrderRequest, config::STRATEGY_ORDER_BUFFER_SIZE>`. -/
abbrev OrderRingBuffer := SingleThreadRingBuffer OutboundOrderRequest ⟨5, by decide⟩

namespace StrategyOrderBuffer

/-- The calls as the strategy and the trader make them: `try_push` and `available`, and the front
is popped off the list. -/
def call (buffer : StrategyOrderBuffer) :
    BufferCall OutboundOrderRequest → BufferAnswer OutboundOrderRequest × StrategyOrderBuffer
  | .tryPush item =>
    match buffer.tryPush item with
    | none => (.flag false, buffer)
    | some pushed => (.flag true, pushed)
  | .available => (.count buffer.available, buffer)
  | c => BoundedQueue.call StrategyConfig.strategyOrderBufferSize buffer c

def answers (buffer : StrategyOrderBuffer) : List (BufferCall OutboundOrderRequest) →
    List (BufferAnswer OutboundOrderRequest)
  | [] => []
  | c :: calls => (buffer.call c).1 :: answers (buffer.call c).2 calls

theorem call_eq (buffer : StrategyOrderBuffer) (c : BufferCall OutboundOrderRequest) :
    buffer.call c = BoundedQueue.call StrategyConfig.strategyOrderBufferSize buffer c := by
  cases c with
  | tryPush item =>
    rw [call, tryPush, BoundedQueue.call]
    by_cases hfull : buffer.length = StrategyConfig.strategyOrderBufferSize
    · rw [if_pos hfull, if_pos hfull]
    · rw [if_neg hfull, if_neg hfull]
  | tryFront | pop | clear | empty | full | size | available => rfl

theorem answers_eq (buffer : StrategyOrderBuffer) (calls : List (BufferCall OutboundOrderRequest)) :
    buffer.answers calls = BoundedQueue.answers StrategyConfig.strategyOrderBufferSize buffer calls := by
  induction calls generalizing buffer with
  | nil => rfl
  | cons c calls ih => rw [answers, BoundedQueue.answers, call_eq, ih]

end StrategyOrderBuffer

/-- Any calls from the start are answered as by a queue with room for `CAPACITY` items, and the order
buffer answers as the list that stands for it in the strategy and the trader. -/
theorem single_thread_ring_buffer_answers :
    (∀ (T : Type) (bits : Fin 64) (memory : Nat → T) (calls : List (BufferCall T)),
      (SingleThreadRingBuffer.new memory : SingleThreadRingBuffer T bits).answers calls =
        BoundedQueue.answers (2 ^ bits.val) [] calls) ∧
    ∀ (memory : Nat → OutboundOrderRequest) (calls : List (BufferCall OutboundOrderRequest)),
      (SingleThreadRingBuffer.new memory : OrderRingBuffer).answers calls = StrategyOrderBuffer.answers [] calls := by
  refine ⟨fun T bits memory calls => (SingleThreadRingBuffer.holds_new memory).answers calls, ?_⟩
  intro memory calls
  rw [StrategyOrderBuffer.answers_eq]
  exact (SingleThreadRingBuffer.holds_new memory).answers calls

/-- A buffer of two slots whose head is about to wrap. -/
example : (⟨fun _ => 0, 0xFFFFFFFFFFFFFFFF, 0xFFFFFFFFFFFFFFFF⟩ : SingleThreadRingBuffer Nat 1).answers
    [.tryPush 1, .tryPush 2, .tryPush 3, .tryFront, .pop, .tryFront, .available] =
    [.flag true, .flag true, .flag false, .front (some 1), .done, .front (some 2), .count 1] := by decide

end HftPipeline
