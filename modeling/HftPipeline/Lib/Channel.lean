import Mathlib

/-!
# A bounded channel between one producer and one consumer

The producer claims a slot, writes it and publishes it; the consumer claims a published
slot, reads it and gives it back. Items are numbered from zero and item `i` lives in
slot `i % capacity`. The second part is about cursors that count items modulo `2 ^ 64`.
-/
namespace BoundedChannel

/-- Where the producer stands. -/
inductive Producing (T : Type) where
  | idle
  | claimed
  | written (item : T)

/-- Where the consumer stands. -/
inductive Consuming where
  | idle
  | claimed
  | taken

/-- `obtained` are the items the consumer has read, `consumed` how many it has given back. -/
structure Channel (T : Type) where
  published : List T
  obtained : List T
  consumed : Nat
  slots : Nat → T
  producer : Producing T
  consumer : Consuming

variable {T : Type} {capacity : Nat} {c c' : Channel T}

/-- How many published items have not been given back. -/
def Channel.unconsumed (c : Channel T) : Nat := c.published.length - c.consumed

/-- A claim needs a free slot, or an item, at the moment it is made. -/
inductive Step (capacity : Nat) : Channel T → Channel T → Prop
  | claim (c : Channel T) (hidle : c.producer = .idle) (hroom : c.unconsumed ≠ capacity) :
      Step capacity c { c with producer := .claimed }
  | write (c : Channel T) (item : T) (hclaimed : c.producer = .claimed) :
      Step capacity c { c with
        slots := Function.update c.slots (c.published.length % capacity) item
        producer := .written item }
  | publish (c : Channel T) (item : T) (hwritten : c.producer = .written item) :
      Step capacity c { c with published := c.published ++ [item], producer := .idle }
  | take (c : Channel T) (hidle : c.consumer = .idle) (hitem : c.unconsumed ≠ 0) :
      Step capacity c { c with consumer := .claimed }
  | read (c : Channel T) (hclaimed : c.consumer = .claimed) :
      Step capacity c { c with
        obtained := c.obtained ++ [c.slots (c.consumed % capacity)]
        consumer := .taken }
  | release (c : Channel T) (htaken : c.consumer = .taken) :
      Step capacity c { c with consumed := c.consumed + 1, consumer := .idle }

/-- How many items the consumer has read but not given back. -/
def Consuming.ahead : Consuming → Nat
  | .idle | .claimed => 0
  | .taken => 1

structure Sound (capacity : Nat) (c : Channel T) : Prop where
  consumed_le : c.consumed ≤ c.published.length
  published_le : c.published.length ≤ c.consumed + capacity
  room : c.producer ≠ .idle → c.published.length < c.consumed + capacity
  item : c.consumer ≠ .idle → c.consumed < c.published.length
  contents : ∀ i, c.consumed ≤ i → i < c.published.length → c.published[i]? = some (c.slots (i % capacity))
  written : ∀ item, c.producer = .written item → c.slots (c.published.length % capacity) = item
  obtained : c.obtained = c.published.take (c.consumed + c.consumer.ahead)

/-- Two numbers less than a lap apart have different slots. -/
theorem mod_ne_of_lap {i j : Nat} (hlt : i < j) (hlap : j < i + capacity) : i % capacity ≠ j % capacity := by
  intro heq
  have hdvd : capacity ∣ j - i := (Nat.modEq_iff_dvd' hlt.le).mp heq
  have := Nat.le_of_dvd (by omega) hdvd
  omega

theorem Sound.unconsumed_le (h : Sound capacity c) : c.unconsumed ≤ capacity := by
  have := h.published_le
  rw [Channel.unconsumed]
  omega

theorem Sound.obtained_prefix (h : Sound capacity c) : c.obtained <+: c.published := by
  rw [h.obtained]
  exact List.take_prefix _ _

theorem Sound.ahead_le (h : Sound capacity c) : c.consumed + c.consumer.ahead ≤ c.published.length := by
  cases hconsumer : c.consumer with
  | idle => exact h.consumed_le
  | claimed => exact h.consumed_le
  | taken => exact h.item (by rw [hconsumer]; exact nofun)

theorem Sound.consumed_le_obtained (h : Sound capacity c) : c.consumed ≤ c.obtained.length := by
  rw [h.obtained, List.length_take_of_le h.ahead_le]
  exact Nat.le_add_right _ _

/-- The slot that the producer has claimed holds none of the items still to be consumed. -/
theorem Sound.slot_free (h : Sound capacity c) (hproducer : c.producer ≠ .idle) {i : Nat} (hi : c.consumed ≤ i)
    (hlt : i < c.published.length) : i % capacity ≠ c.published.length % capacity := by
  have := h.room hproducer
  exact mod_ne_of_lap hlt (by omega)

theorem sound_start (slots : Nat → T) : Sound capacity ⟨[], [], 0, slots, .idle, .idle⟩ where
  consumed_le := Nat.le_refl _
  published_le := Nat.zero_le _
  room h := absurd rfl h
  item h := absurd rfl h
  contents i _ hlt := absurd hlt (Nat.not_lt_zero i)
  written item h := by cases h
  obtained := rfl

theorem Sound.write (h : Sound capacity c) (hclaimed : c.producer = .claimed) (item : T) :
    Sound capacity { c with
      slots := Function.update c.slots (c.published.length % capacity) item
      producer := .written item } := by
  have hbusy : c.producer ≠ .idle := by rw [hclaimed]; exact nofun
  refine ⟨h.consumed_le, h.published_le, fun _ => h.room hbusy, h.item, ?_, ?_, h.obtained⟩
  · intro i hi hlt
    show _ = some (Function.update c.slots _ item (i % capacity))
    rw [Function.update_of_ne (h.slot_free hbusy hi hlt)]
    exact h.contents i hi hlt
  · intro item' hwritten
    cases hwritten
    exact Function.update_self _ _ _

theorem Sound.publish (h : Sound capacity c) {item : T} (hwritten : c.producer = .written item) :
    Sound capacity { c with published := c.published ++ [item], producer := .idle } := by
  have hroom := h.room (by rw [hwritten]; exact nofun)
  have hle := h.consumed_le
  have hlength : (c.published ++ [item]).length = c.published.length + 1 := by
    rw [List.length_append, List.length_singleton]
  refine ⟨?_, ?_, fun hidle => absurd rfl hidle, ?_, ?_, (fun _ hitem => by cases hitem), ?_⟩
  · show c.consumed ≤ (c.published ++ [item]).length
    omega
  · show (c.published ++ [item]).length ≤ c.consumed + capacity
    omega
  · intro hconsumer
    show c.consumed < (c.published ++ [item]).length
    have := h.item hconsumer
    omega
  · intro i hi hlt
    have hlt : i < c.published.length + 1 := hlength ▸ hlt
    show (c.published ++ [item])[i]? = some (c.slots (i % capacity))
    by_cases hnew : i = c.published.length
    · rw [hnew, List.getElem?_concat_length, h.written item hwritten]
    · rw [List.getElem?_append_left (by omega)]
      exact h.contents i hi (by omega)
  · show c.obtained = (c.published ++ [item]).take (c.consumed + c.consumer.ahead)
    rw [List.take_append_of_le_length h.ahead_le]
    exact h.obtained

theorem Sound.read (h : Sound capacity c) (hclaimed : c.consumer = .claimed) :
    Sound capacity { c with
      obtained := c.obtained ++ [c.slots (c.consumed % capacity)]
      consumer := .taken } := by
  have hitem := h.item (by rw [hclaimed]; exact nofun)
  have hobtained := h.obtained
  rw [hclaimed] at hobtained
  refine ⟨h.consumed_le, h.published_le, h.room, fun _ => hitem, h.contents, h.written, ?_⟩
  show c.obtained ++ _ = c.published.take (c.consumed + 1)
  rw [List.take_add_one, h.contents c.consumed (Nat.le_refl _) hitem, hobtained]
  rfl

theorem Sound.release (h : Sound capacity c) (htaken : c.consumer = .taken) :
    Sound capacity { c with consumed := c.consumed + 1, consumer := .idle } := by
  have hitem := h.item (by rw [htaken]; exact nofun)
  have hle := h.published_le
  refine ⟨hitem, ?_, ?_, fun hidle => absurd rfl hidle, ?_, h.written, ?_⟩
  · show c.published.length ≤ c.consumed + 1 + capacity
    omega
  · intro hbusy
    show c.published.length < c.consumed + 1 + capacity
    have := h.room hbusy
    omega
  · intro i hi hlt
    exact h.contents i (Nat.le_of_succ_le hi) hlt
  · have hobtained := h.obtained
    rw [htaken] at hobtained
    exact hobtained

theorem Sound.step (h : Sound capacity c) (hstep : Step capacity c c') : Sound capacity c' := by
  cases hstep with
  | claim hidle hroom =>
    have hle := h.published_le
    rw [Channel.unconsumed] at hroom
    refine ⟨h.consumed_le, hle, fun _ => ?_, h.item, h.contents, (fun _ hitem => by cases hitem), h.obtained⟩
    show c.published.length < c.consumed + capacity
    omega
  | write item hclaimed => exact h.write hclaimed item
  | publish item hwritten => exact h.publish hwritten
  | take hidle hitem =>
    rw [Channel.unconsumed] at hitem
    have hobtained := h.obtained
    rw [hidle] at hobtained
    refine ⟨h.consumed_le, h.published_le, h.room, fun _ => ?_, h.contents, h.written, hobtained⟩
    show c.consumed < c.published.length
    omega
  | read hclaimed => exact h.read hclaimed
  | release htaken => exact h.release htaken

/-! ## Cursors that wrap -/

/-- A cursor shows how many items it has passed. -/
def Shows (cursor : UInt64) (count : Nat) : Prop := cursor = UInt64.ofNat count

theorem Shows.add_one {cursor : UInt64} {count : Nat} (h : Shows cursor count) :
    Shows (cursor + 1) (count + 1) := by
  rw [Shows, h, UInt64.ofNat_add]
  rfl

/-- The distance between two cursors is the distance between the counts. -/
theorem Shows.toNat_sub {ahead behind : UInt64} {i j : Nat} (hahead : Shows ahead j) (hbehind : Shows behind i)
    (hle : i ≤ j) (hlt : j - i < 2 ^ 64) : (ahead - behind).toNat = j - i := by
  have hsplit : ahead = behind + UInt64.ofNat (j - i) := by
    rw [hahead, hbehind, ← UInt64.ofNat_add, Nat.add_sub_cancel' hle]
  rw [hsplit, UInt64.add_comm, UInt64.add_sub_cancel]
  exact UInt64.toNat_ofNat_of_lt hlt

theorem Shows.eq_iff {ahead behind : UInt64} {i j : Nat} (hahead : Shows ahead j) (hbehind : Shows behind i)
    (hle : i ≤ j) (hlt : j - i < 2 ^ 64) : ahead = behind ↔ j - i = 0 := by
  rw [← hahead.toNat_sub hbehind hle hlt]
  constructor
  · intro heq
    rw [heq, UInt64.sub_self]
    rfl
  · intro hzero
    have hdiff : ahead - behind = 0 := UInt64.toNat_inj.mp hzero
    rw [← UInt64.sub_add_cancel ahead behind, hdiff, UInt64.zero_add]

/-- Masking a cursor gives the slot, also after it has wrapped. -/
theorem Shows.slot {cursor : UInt64} {count bits : Nat} (h : Shows cursor count) (hbits : bits < 64) :
    (cursor &&& (UInt64.ofNat (2 ^ bits) - 1)).toNat = count % 2 ^ bits := by
  have hpow : 2 ^ bits < 2 ^ 64 := Nat.pow_lt_pow_right (by omega) hbits
  have hpos : 0 < 2 ^ bits := Nat.two_pow_pos bits
  have hcapacity : (UInt64.ofNat (2 ^ bits)).toNat = 2 ^ bits := UInt64.toNat_ofNat_of_lt hpow
  have hone : (1 : UInt64) ≤ UInt64.ofNat (2 ^ bits) := by
    show (1 : UInt64).toNat ≤ (UInt64.ofNat (2 ^ bits)).toNat
    rw [hcapacity, UInt64.toNat_one]
    omega
  have hdvd : 2 ^ bits ∣ 2 ^ 64 := Nat.pow_dvd_pow 2 (by omega)
  rw [UInt64.toNat_and, UInt64.toNat_sub_of_le _ _ hone, hcapacity, UInt64.toNat_one,
    Nat.and_two_pow_sub_one_eq_mod, h, UInt64.toNat_ofNat']
  exact Nat.mod_mod_of_dvd count hdvd

end BoundedChannel
