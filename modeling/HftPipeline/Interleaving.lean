import HftPipeline.ReorderBuffer

/-!
# The reorder buffer step by step

A machine whose steps are the single loads, stores and atomic read-modify-writes
of any number of writers and one reader.

A writer tests `reader_index_` and then claims its slot in a step of its own. In
between, another writer may write the same index and the reader may consume it,
and the claim succeeds all the same. Without such a late claim the reader gets
every index once and in order.
-/
namespace HftPipeline

namespace ReorderBuffer

variable {T : Type} {bits : Nat}

/-- Where a writer stands; `idle` remembers what its last call returned. -/
inductive WriterPc where
  | idle (last : Option WriteStatus)
  | validating (index : Nat)
  | rejecting (readerIndex : Nat)
  | claiming (index : Nat)
  | writing (index : Nat)
  | releasing (index : Nat)
  deriving DecidableEq, Repr

/-- Where the reader stands, with the slot and the item it has in hand. -/
inductive ReaderPc (T : Type) where
  | idle
  | checking (slot : Nat)
  | copying (slot : Nat)
  | advancing (slot : Nat) (item : T)
  | freeing (slot : Nat) (item : T)

/-- The next step of a call of `try_write_to(data index, index)`. -/
def writerStep (data : Nat → T) (b : ReorderBuffer T bits) : WriterPc → ReorderBuffer T bits × WriterPc
  | .idle last => (b, .idle last)
  | .validating index =>
    if limit bits b.readerIndex ≤ index then (b, .rejecting b.readerIndex)
    else if index < b.readerIndex then (b, .idle (some .alreadyWritten))
    else (b, .claiming index)
  | .rejecting readerIndex => (b, .idle (some (b.tooFarAhead readerIndex)))
  | .claiming index =>
    if (b.buffer (slotOf bits index)).status = .empty then
      (b.setStatus (slotOf bits index) .locked, .writing index)
    else (b, .idle (some .alreadyWritten))
  | .writing index => (b.setData (slotOf bits index) (data index), .releasing index)
  | .releasing index => (b.setStatus (slotOf bits index) .ready, .idle (some .success))

/-- The next step of `try_consume_next`, with the item if it returns one. -/
def readerStep (b : ReorderBuffer T bits) : ReaderPc T → ReorderBuffer T bits × ReaderPc T × Option T
  | .idle => (b, .checking (slotOf bits b.readerIndex), none)
  | .checking slot => if (b.buffer slot).status ≠ .ready then (b, .idle, none) else (b, .copying slot, none)
  | .copying slot => (b, .advancing slot (b.buffer slot).data, none)
  | .advancing slot item => (b.advance, .freeing slot item, none)
  | .freeing slot item => (b.setStatus slot .empty, .idle, some item)

/-- A call that nobody interrupts is the whole operation. -/
theorem writerStep_iterate (data : Nat → T) (b : ReorderBuffer T bits) (index : Nat) :
    (fun p : ReorderBuffer T bits × WriterPc => writerStep data p.1 p.2)^[4] (b, .validating index) =
      ((b.tryWriteTo (data index) index).2, .idle (some (b.tryWriteTo (data index) index).1)) := by
  simp only [Function.iterate_succ, Function.iterate_zero, Function.comp_apply, id_eq, tryWriteTo,
    validateAndClaimSlot, tryClaimSlot]
  by_cases hfar : limit bits b.readerIndex ≤ index
  · have hne : b.tooFarAhead b.readerIndex ≠ .success := by rw [tooFarAhead]; split <;> simp
    simp [writerStep, hfar, hne]
  · by_cases hold : index < b.readerIndex
    · simp [writerStep, hfar, hold]
    · by_cases hempty : (b.buffer (slotOf bits index)).status = .empty
      · simp [writerStep, hfar, hold, hempty]
      · simp [writerStep, hfar, hold, hempty]

/-- The reader's call that finds the slot ready, when nobody interrupts it. -/
theorem readerStep_iterate (b : ReorderBuffer T bits)
    (hready : (b.buffer (slotOf bits b.readerIndex)).status = .ready) :
    let start := readerStep b .idle
    let checked := readerStep start.1 start.2.1
    let copied := readerStep checked.1 checked.2.1
    let advanced := readerStep copied.1 copied.2.1
    readerStep advanced.1 advanced.2.1 = (b.tryConsumeNext.2, .idle, b.tryConsumeNext.1) := by
  simp [readerStep, tryConsumeNext, hready]

end ReorderBuffer

/-! ## Writers and a reader, interleaved -/

open ReorderBuffer

/-- The buffer, its writers, its reader and the items the reader has obtained. -/
structure Machine (W T : Type) (bits : Nat) where
  shared : ReorderBuffer T bits
  writers : W → WriterPc
  reader : ReaderPc T
  obtained : List T

/-- A writer enters `try_write_to`, a writer takes a step, or the reader does. -/
inductive Turn (W : Type) where
  | call (w : W) (index : UInt64)
  | writer (w : W)
  | reader
  deriving DecidableEq

namespace Machine

variable {W T : Type} {bits : Nat} [DecidableEq W]

def init (memory : Nat → T) (initialReaderIndex : UInt64) : Machine W T bits :=
  ⟨ReorderBuffer.new memory initialReaderIndex, fun _ => .idle none, .idle, []⟩

/-- A writer that is inside a call does not enter another. -/
def step (data : Nat → T) (m : Machine W T bits) : Turn W → Machine W T bits
  | .call w index =>
    match m.writers w with
    | .idle _ => { m with writers := Function.update m.writers w (.validating index.toNat) }
    | _ => m
  | .writer w =>
    let (shared, pc) := writerStep data m.shared (m.writers w)
    { m with shared := shared, writers := Function.update m.writers w pc }
  | .reader =>
    let (shared, pc, item) := readerStep m.shared m.reader
    { m with shared := shared, reader := pc, obtained := m.obtained ++ item.toList }

def run (data : Nat → T) (m : Machine W T bits) (turns : List (Turn W)) : Machine W T bits :=
  turns.foldl (step data) m

/-- The turn is not a claim of an empty slot for an index behind the reader. -/
def Timely (m : Machine W T bits) : Turn W → Prop
  | .writer w => ∀ index, m.writers w = .claiming index →
      (m.shared.buffer (slotOf bits index)).status = .empty → m.shared.readerIndex ≤ index
  | _ => True

def TimelyRun (data : Nat → T) (m : Machine W T bits) : List (Turn W) → Prop
  | [] => True
  | t :: turns => m.Timely t ∧ TimelyRun data (m.step data t) turns

instance (m : Machine W T bits) : (t : Turn W) → Decidable (m.Timely t)
  | .call _ _ | .reader => .isTrue trivial
  | .writer w =>
    match h : m.writers w with
    | .claiming index =>
      decidable_of_iff
        ((m.shared.buffer (slotOf bits index)).status = .empty → m.shared.readerIndex ≤ index) (by
          simp [Timely, h])
    | .idle _ | .validating _ | .rejecting _ | .writing _ | .releasing _ => .isTrue (by simp [Timely, h])

instance (data : Nat → T) : (m : Machine W T bits) → (turns : List (Turn W)) →
    Decidable (TimelyRun data m turns)
  | _, [] => .isTrue trivial
  | m, t :: turns =>
    have := instDecidableTimelyRun data (m.step data t) turns
    inferInstanceAs (Decidable (m.Timely t ∧ TimelyRun data (m.step data t) turns))

/-- The writer has claimed the slot of `index` and not released it. -/
def Holds (m : Machine W T bits) (w : W) (index : Nat) : Prop :=
  m.writers w = .writing index ∨ m.writers w = .releasing index

/-- What the reader knows of its slot at each point of a call. -/
def ReaderAt (data : Nat → T) (m : Machine W T bits) : Prop :=
  match m.reader with
  | .idle => True
  | .checking slot => slot = slotOf bits m.shared.readerIndex
  | .copying slot => slot = slotOf bits m.shared.readerIndex ∧ (m.shared.buffer slot).status = .ready
  | .advancing slot item => slot = slotOf bits m.shared.readerIndex ∧
      (m.shared.buffer slot).status = .ready ∧ item = data m.shared.readerIndex ∧
      m.shared.readerIndex + 1 < 2 ^ 64
  | .freeing slot item => ∃ r, m.shared.readerIndex = r + 1 ∧ slot = slotOf bits r ∧
      (m.shared.buffer slot).status = .ready ∧ item = data r

/-- The items taken out of the buffer: those obtained, and one being freed. -/
def taken (m : Machine W T bits) : List T :=
  match m.reader with
  | .freeing _ item => m.obtained ++ [item]
  | _ => m.obtained

structure InOrder (data : Nat → T) (start : Nat) (m : Machine W T bits) : Prop where
  claiming : ∀ w index, m.writers w = .claiming index →
    index < m.shared.readerIndex + (2 ^ bits - 1) ∧ index + 1 < 2 ^ 64
  holding : ∀ w index, m.Holds w index → (m.shared.buffer (slotOf bits index)).status = .locked ∧
    InWindow bits m.shared.readerIndex index
  alone : ∀ w v i j, m.Holds w i → m.Holds v j → slotOf bits i = slotOf bits j → w = v
  written : ∀ w index, m.writers w = .releasing index →
    (m.shared.buffer (slotOf bits index)).data = data index
  ready : ∀ slot, (m.shared.buffer slot).status = .ready → (∀ item, m.reader ≠ .freeing slot item) →
    ∃ index, slotOf bits index = slot ∧ InWindow bits m.shared.readerIndex index ∧
      (m.shared.buffer slot).data = data index
  reader : m.ReaderAt data
  position : m.shared.readerIndex = start + m.taken.length
  items : m.taken = (List.range m.taken.length).map fun k => data (start + k)

variable {data : Nat → T} {start : Nat} {m : Machine W T bits}

section

omit [DecidableEq W]

theorem init_inOrder (memory : Nat → T) (initialReaderIndex : UInt64) :
    (init memory initialReaderIndex : Machine W T bits).InOrder data initialReaderIndex.toNat := by
  refine ⟨?_, ?_, ?_, ?_, ?_, trivial, rfl, rfl⟩
  · intro w index h
    cases h
  · intro w index h
    rcases h with h | h <;> cases h
  · intro w v i j h
    rcases h with h | h <;> cases h
  · intro w index h
    cases h
  · intro slot h
    cases h

/-- A ready slot under the reader holds the item of the reader's index. -/
theorem InOrder.at_reader (h : m.InOrder data start) (hfree : ∀ slot item, m.reader ≠ .freeing slot item)
    (hready : (m.shared.buffer (slotOf bits m.shared.readerIndex)).status = .ready) :
    (m.shared.buffer (slotOf bits m.shared.readerIndex)).data = data m.shared.readerIndex ∧
      m.shared.readerIndex + 1 < 2 ^ 64 := by
  obtain ⟨index, hslot, hwindow, hdata⟩ := h.ready _ hready fun item => hfree _ item
  have hupper := hwindow.upper
  have hlower := hwindow.lower
  have hself : InWindow bits m.shared.readerIndex m.shared.readerIndex :=
    ⟨le_refl _, by omega, by have := hwindow.fits; omega⟩
  have heq := hwindow.eq_of_slotOf_eq hself hslot
  rw [hdata, heq]
  exact ⟨rfl, hself.fits⟩

/-- Turns of the reader before it takes the item change nothing but its position. -/
theorem InOrder.reader_move (h : m.InOrder data start) (hfree : ∀ slot item, m.reader ≠ .freeing slot item)
    {pc : ReaderPc T} (hpc : ∀ slot item, pc ≠ .freeing slot item)
    (hat : ({ m with reader := pc } : Machine W T bits).ReaderAt data) :
    ({ m with reader := pc } : Machine W T bits).InOrder data start := by
  have hold : m.taken = m.obtained := by
    rw [taken]
    split
    · rename_i slot item heq
      exact absurd heq (hfree slot item)
    · rfl
  have hnew : ({ m with reader := pc } : Machine W T bits).taken = m.obtained := by
    rw [taken]
    split
    · rename_i slot item heq
      exact absurd heq (hpc slot item)
    · rfl
  have hposition := h.position
  have htaken := h.items
  rw [hold] at hposition htaken
  refine ⟨h.claiming, h.holding, h.alone, h.written, ?_, hat, ?_, ?_⟩
  · intro slot hready _
    exact h.ready slot hready fun item => hfree slot item
  · rw [hnew]
    exact hposition
  · rw [hnew]
    exact htaken

/-- `fetch_add`: the item is taken, every other index in use stays in the window. -/
theorem InOrder.reader_advance (h : m.InOrder data start) {slot : Nat} {item : T}
    (hpc : m.reader = .advancing slot item) :
    ({ m with shared := m.shared.advance, reader := .freeing slot item } : Machine W T bits).InOrder
      data start := by
  have hat := h.reader
  simp only [ReaderAt, hpc] at hat
  obtain ⟨rfl, hready, rfl, hfits⟩ := hat
  have hsucc : m.shared.advance.readerIndex = m.shared.readerIndex + 1 := Nat.mod_eq_of_lt hfits
  have hposition : m.shared.readerIndex = start + m.obtained.length := by
    have := h.position
    simpa only [taken, hpc] using this
  have htaken : m.obtained = (List.range m.obtained.length).map fun k => data (start + k) := by
    have := h.items
    simpa only [taken, hpc] using this
  refine ⟨?_, ?_, h.alone, h.written, ?_, ?_, ?_, ?_⟩
  · intro w index hclaiming
    have := h.claiming w index hclaiming
    simp only [hsucc]
    omega
  · intro w index hholds
    obtain ⟨hlocked, hwindow⟩ := h.holding w index hholds
    refine ⟨hlocked, ?_⟩
    simp only [hsucc]
    refine hwindow.succ fun heq => ?_
    rw [heq, hready] at hlocked
    cases hlocked
  · intro slot hslot hfreeing
    obtain ⟨index, rfl, hwindow, hdata⟩ := h.ready slot hslot (by rw [hpc]; intro _ h; cases h)
    refine ⟨index, rfl, ?_, hdata⟩
    simp only [hsucc]
    refine hwindow.succ fun heq => ?_
    exact hfreeing _ (by rw [heq])
  · exact ⟨m.shared.readerIndex, hsucc, rfl, hready, rfl⟩
  · simp only [taken, hsucc, List.length_append, List.length_singleton]
    omega
  · simp only [taken, List.length_append, List.length_singleton, List.range_succ, List.map_append,
      List.map_singleton]
    rw [← htaken, ← hposition]

/-- The slot is empty again and the reader has its item. -/
theorem InOrder.reader_free (h : m.InOrder data start) {slot : Nat} {item : T}
    (hpc : m.reader = .freeing slot item) :
    ({ m with shared := m.shared.setStatus slot .empty, reader := .idle, obtained := m.obtained ++ [item] } :
      Machine W T bits).InOrder data start := by
  have hat := h.reader
  simp only [ReaderAt, hpc] at hat
  obtain ⟨r, hr, rfl, hready, rfl⟩ := hat
  refine ⟨h.claiming, ?_, h.alone, ?_, ?_, trivial, ?_, ?_⟩
  · intro w index hholds
    obtain ⟨hlocked, hwindow⟩ := h.holding w index hholds
    refine ⟨?_, hwindow⟩
    have hne : slotOf bits index ≠ slotOf bits r := by
      intro heq
      rw [heq, hready] at hlocked
      cases hlocked
    simp [hne, hlocked]
  · intro w index hreleasing
    simpa using h.written w index hreleasing
  · intro slot hslot _
    have hne : slot ≠ slotOf bits r := by
      rintro rfl
      simp at hslot
    simp only [setStatus_status, if_neg hne] at hslot
    obtain ⟨index, hindex, hwindow, hdata⟩ := h.ready slot hslot (by
      intro item heq
      rw [hpc] at heq
      cases heq
      exact hne rfl)
    exact ⟨index, hindex, hwindow, by simpa using hdata⟩
  · have := h.position
    simpa only [taken, hpc, setStatus_readerIndex] using this
  · have := h.items
    simpa only [taken, hpc] using this

end

theorem InOrder.reader_step (h : m.InOrder data start) : (m.step data .reader).InOrder data start := by
  have hat := h.reader
  rw [step]
  cases hpc : m.reader with
  | idle =>
    simp only [readerStep, Option.toList_none, List.append_nil]
    exact h.reader_move (by simp [hpc]) (by simp) rfl
  | checking slot =>
    simp only [ReaderAt, hpc] at hat
    by_cases hready : (m.shared.buffer slot).status = .ready
    · simp only [readerStep, hready, ne_eq, not_true_eq_false, if_false, Option.toList_none, List.append_nil]
      exact h.reader_move (by simp [hpc]) (by simp) ⟨hat, hready⟩
    · simp only [readerStep, hready, ne_eq, not_false_eq_true, if_true, Option.toList_none, List.append_nil]
      exact h.reader_move (by simp [hpc]) (by simp) trivial
  | copying slot =>
    simp only [ReaderAt, hpc] at hat
    obtain ⟨rfl, hready⟩ := hat
    obtain ⟨hdata, hfits⟩ := h.at_reader (by simp [hpc]) hready
    simp only [readerStep, Option.toList_none, List.append_nil]
    exact h.reader_move (by simp [hpc]) (by simp) ⟨rfl, hready, hdata, hfits⟩
  | advancing slot item =>
    simp only [readerStep, Option.toList_none, List.append_nil]
    exact h.reader_advance hpc
  | freeing slot item =>
    simp only [readerStep, Option.toList_some]
    exact h.reader_free hpc

/-- A writer's turn that leaves the buffer alone and claims nothing. -/
theorem InOrder.writer_move (h : m.InOrder data start) (w : W) {pc : WriterPc}
    (hwriting : ∀ index, pc ≠ .writing index) (hreleasing : ∀ index, pc ≠ .releasing index)
    (hclaiming : ∀ index, pc = .claiming index →
      index < m.shared.readerIndex + (2 ^ bits - 1) ∧ index + 1 < 2 ^ 64) :
    ({ m with writers := Function.update m.writers w pc } : Machine W T bits).InOrder data start := by
  have hholds : ∀ v index,
      ({ m with writers := Function.update m.writers w pc } : Machine W T bits).Holds v index →
      m.Holds v index := by
    intro v index hv
    by_cases hvw : v = w
    · subst hvw
      rcases hv with hv | hv
      · exact absurd (by simpa using hv) (hwriting index)
      · exact absurd (by simpa using hv) (hreleasing index)
    · simpa only [Holds, Function.update_of_ne hvw] using hv
  refine ⟨?_, ?_, ?_, ?_, h.ready, h.reader, h.position, h.items⟩
  · intro v index hv
    by_cases hvw : v = w
    · subst hvw
      exact hclaiming index (by simpa using hv)
    · exact h.claiming v index (by simpa only [Function.update_of_ne hvw] using hv)
  · intro v index hv
    exact h.holding v index (hholds v index hv)
  · intro v u i j hv hu
    exact h.alone v u i j (hholds v i hv) (hholds u j hu)
  · intro v index hv
    by_cases hvw : v = w
    · subst hvw
      exact absurd (by simpa using hv) (hreleasing index)
    · exact h.written v index (by simpa only [Function.update_of_ne hvw] using hv)

omit [DecidableEq W] in
/-- What the reader knows of its slot only needs ready slots to stay as they are. -/
theorem ReaderAt.of_ready {shared : ReorderBuffer T bits} {writers : W → WriterPc} (h : m.ReaderAt data)
    (hindex : shared.readerIndex = m.shared.readerIndex)
    (hready : ∀ slot, (m.shared.buffer slot).status = .ready → (shared.buffer slot).status = .ready) :
    ({ m with shared := shared, writers := writers } : Machine W T bits).ReaderAt data := by
  rw [ReaderAt] at h ⊢
  cases hpc : m.reader with
  | idle => trivial
  | checking slot =>
    simp only [hpc] at h
    simpa only [hpc, hindex] using h
  | copying slot =>
    simp only [hpc] at h
    simpa only [hpc, hindex] using ⟨h.1, hready _ h.2⟩
  | advancing slot item =>
    simp only [hpc] at h
    simpa only [hpc, hindex] using ⟨h.1, hready _ h.2.1, h.2.2⟩
  | freeing slot item =>
    simp only [hpc] at h
    obtain ⟨r, hr, hslot, hstatus, hitem⟩ := h
    simpa only [hpc, hindex] using ⟨r, hr, hslot, hready _ hstatus, hitem⟩

/-- A writer's turn on the slot of `index`, which it owns and which the reader may
not touch yet: the claim, the copy of the data and the release are its three cases. -/
theorem InOrder.writer_store (h : m.InOrder data start) {w : W} {pc : WriterPc} {index : Nat}
    {shared : ReorderBuffer T bits} (hwindow : InWindow bits m.shared.readerIndex index)
    (hindex : shared.readerIndex = m.shared.readerIndex)
    (hother : ∀ slot, slot ≠ slotOf bits index → shared.buffer slot = m.shared.buffer slot)
    (hold : (m.shared.buffer (slotOf bits index)).status ≠ .ready)
    (howner : ∀ v i, v ≠ w → m.Holds v i → slotOf bits i ≠ slotOf bits index)
    (hclaiming : ∀ i, pc ≠ .claiming i)
    (hholding : ∀ i, pc = .writing i ∨ pc = .releasing i →
      i = index ∧ (shared.buffer (slotOf bits index)).status = .locked)
    (hwritten : (∃ i, pc = .releasing i) ∨ (shared.buffer (slotOf bits index)).status = .ready →
      (shared.buffer (slotOf bits index)).data = data index) :
    ({ m with shared := shared, writers := Function.update m.writers w pc } : Machine W T bits).InOrder
      data start := by
  have hself : ∀ i, ({ m with shared := shared, writers := Function.update m.writers w pc } :
      Machine W T bits).Holds w i → pc = .writing i ∨ pc = .releasing i := by
    intro i hi
    simpa only [Holds, Function.update_self] using hi
  have hothers : ∀ v i, v ≠ w → ({ m with shared := shared, writers := Function.update m.writers w pc } :
      Machine W T bits).Holds v i → m.Holds v i := by
    intro v i hvw hv
    simpa only [Holds, Function.update_of_ne hvw] using hv
  refine ⟨?_, ?_, ?_, ?_, ?_, ?_, by rw [hindex]; exact h.position, h.items⟩
  · intro v i hv
    rw [hindex]
    by_cases hvw : v = w
    · subst hvw
      exact absurd (by simpa using hv) (hclaiming i)
    · exact h.claiming v i (by simpa only [Function.update_of_ne hvw] using hv)
  · intro v i hv
    rw [hindex]
    by_cases hvw : v = w
    · subst hvw
      obtain ⟨rfl, hlocked⟩ := hholding i (hself i hv)
      exact ⟨hlocked, hwindow⟩
    · have hv := hothers v i hvw hv
      rw [hother _ (howner v i hvw hv)]
      exact h.holding v i hv
  · intro v u i j hv hu heq
    by_cases hvw : v = w
    · subst hvw
      by_contra huv
      obtain ⟨rfl, _⟩ := hholding i (hself i hv)
      exact howner u j (Ne.symm huv) (hothers u j (Ne.symm huv) hu) heq.symm
    · by_cases huw : u = w
      · subst huw
        obtain ⟨rfl, _⟩ := hholding j (hself j hu)
        exact absurd heq (howner v i hvw (hothers v i hvw hv))
      · exact h.alone v u i j (hothers v i hvw hv) (hothers u j huw hu) heq
  · intro v i hv
    by_cases hvw : v = w
    · subst hvw
      have hpc : pc = .releasing i := by simpa using hv
      obtain ⟨rfl, _⟩ := hholding i (Or.inr hpc)
      exact hwritten (Or.inl ⟨i, hpc⟩)
    · have hv : m.writers v = .releasing i := by simpa only [Function.update_of_ne hvw] using hv
      rw [hother _ (howner v i hvw (Or.inr hv))]
      exact h.written v i hv
  · intro slot hslot hfreeing
    rw [hindex]
    by_cases heq : slot = slotOf bits index
    · subst heq
      exact ⟨index, rfl, hwindow, hwritten (Or.inr hslot)⟩
    · simp only [hother slot heq] at hslot ⊢
      exact h.ready slot hslot hfreeing
  · refine h.reader.of_ready hindex fun slot hslot => ?_
    rw [hother slot fun heq => hold (by rw [← heq]; exact hslot)]
    exact hslot

theorem setStatus_buffer_of_ne (b : ReorderBuffer T bits) {slot i : Nat} (status : BufferStatus)
    (h : i ≠ slot) : (b.setStatus slot status).buffer i = b.buffer i := Function.update_of_ne h _ _

theorem setData_buffer_of_ne (b : ReorderBuffer T bits) {slot i : Nat} (data : T)
    (h : i ≠ slot) : (b.setData slot data).buffer i = b.buffer i := Function.update_of_ne h _ _

theorem InOrder.writer_step (h : m.InOrder data start) {w : W} (htimely : m.Timely (.writer w)) :
    (m.step data (.writer w)).InOrder data start := by
  rw [step]
  cases hpc : m.writers w with
  | idle last => exact h.writer_move w (by simp) (by simp) (by simp)
  | validating index =>
    by_cases hahead : limit bits m.shared.readerIndex ≤ index
    · simp only [writerStep, if_pos hahead]
      exact h.writer_move w (by simp) (by simp) (by simp)
    · by_cases hold : index < m.shared.readerIndex
      · simp only [writerStep, if_neg hahead, if_pos hold]
        exact h.writer_move w (by simp) (by simp) (by simp)
      · simp only [writerStep, if_neg hahead, if_neg hold]
        have hwindow := inWindow_of_validated hahead hold
        refine h.writer_move w (by simp) (by simp) ?_
        intro i hi
        cases hi
        exact ⟨hwindow.upper, hwindow.fits⟩
  | rejecting readerIndex => exact h.writer_move w (by simp) (by simp) (by simp)
  | claiming index =>
    by_cases hempty : (m.shared.buffer (slotOf bits index)).status = .empty
    · simp only [writerStep, if_pos hempty]
      obtain ⟨hupper, hfits⟩ := h.claiming w index hpc
      refine h.writer_store ⟨htimely index hpc hempty, hupper, hfits⟩ rfl
        (fun slot hne => setStatus_buffer_of_ne _ _ hne) (by simp [hempty]) ?_ (by simp) ?_ (by simp)
      · intro v i _ hv heq
        have hlocked := (h.holding v i hv).1
        rw [heq, hempty] at hlocked
        cases hlocked
      · intro i hi
        simp only [WriterPc.writing.injEq, reduceCtorEq, or_false] at hi
        exact ⟨hi.symm, by simp⟩
    · simp only [writerStep, if_neg hempty]
      exact h.writer_move w (by simp) (by simp) (by simp)
  | writing index =>
    obtain ⟨hlocked, hwindow⟩ := h.holding w index (Or.inl hpc)
    refine h.writer_store hwindow rfl (fun slot hne => setData_buffer_of_ne _ _ hne) (by simp [hlocked]) ?_
      (by simp) ?_ (by simp)
    · intro v i hvw hv heq
      exact hvw (h.alone v w i index hv (Or.inl hpc) heq)
    · intro i hi
      simp only [reduceCtorEq, WriterPc.releasing.injEq, false_or] at hi
      exact ⟨hi.symm, by simpa using hlocked⟩
  | releasing index =>
    obtain ⟨hlocked, hwindow⟩ := h.holding w index (Or.inr hpc)
    refine h.writer_store hwindow rfl (fun slot hne => setStatus_buffer_of_ne _ _ hne) (by simp [hlocked]) ?_
      (by simp) (by simp) ?_
    · intro v i hvw hv heq
      exact hvw (h.alone v w i index hv (Or.inr hpc) heq)
    · intro _
      simpa using h.written w index hpc

theorem InOrder.step (h : m.InOrder data start) {t : Turn W} (htimely : m.Timely t) :
    (m.step data t).InOrder data start := by
  cases t with
  | call w index =>
    rw [Machine.step]
    split
    · exact h.writer_move w (by simp) (by simp) (by simp)
    · exact h
  | writer w => exact h.writer_step htimely
  | reader => exact h.reader_step

theorem InOrder.run (h : m.InOrder data start) {turns : List (Turn W)} (htimely : TimelyRun data m turns) :
    (m.run data turns).InOrder data start := by
  induction turns generalizing m with
  | nil => exact h
  | cons t turns ih => exact ih (h.step htimely.1) htimely.2

/-- Only a release makes a slot ready. -/
theorem step_ready {t : Turn W} {slot : Nat} (hold : (m.shared.buffer slot).status ≠ .ready)
    (hnew : ((m.step data t).shared.buffer slot).status = .ready) :
    ∃ w index, t = .writer w ∧ m.writers w = .releasing index ∧ slot = slotOf bits index ∧
      (m.step data t).shared = m.shared.setStatus slot .ready := by
  cases t with
  | call w index =>
    rw [Machine.step] at hnew
    split at hnew <;> exact absurd hnew hold
  | writer w =>
    refine ⟨w, ?_⟩
    simp only [Machine.step] at hnew ⊢
    cases hpc : m.writers w with
    | idle last => exact absurd (by simpa [writerStep, hpc] using hnew) hold
    | validating index =>
      simp only [hpc, writerStep] at hnew
      split at hnew
      · exact absurd hnew hold
      · split at hnew <;> exact absurd hnew hold
    | rejecting readerIndex => exact absurd (by simpa [writerStep, hpc] using hnew) hold
    | claiming index =>
      simp only [hpc, writerStep] at hnew
      split at hnew
      · simp only [setStatus_status] at hnew
        split at hnew
        · cases hnew
        · exact absurd hnew hold
      · exact absurd hnew hold
    | writing index => exact absurd (by simpa [writerStep, hpc] using hnew) hold
    | releasing index =>
      simp only [hpc, writerStep, setStatus_status] at hnew
      split at hnew
      · rename_i hslot
        subst hslot
        exact ⟨index, trivial, rfl, rfl, rfl⟩
      · exact absurd hnew hold
  | reader =>
    simp only [Machine.step] at hnew
    cases hpc : m.reader with
    | idle => exact absurd (by simpa [readerStep, hpc] using hnew) hold
    | checking slot =>
      simp only [hpc, readerStep] at hnew
      split at hnew <;> exact absurd hnew hold
    | copying slot => exact absurd (by simpa [readerStep, hpc] using hnew) hold
    | advancing slot item => exact absurd (by simpa [readerStep, hpc] using hnew) hold
    | freeing slot item =>
      simp only [hpc, readerStep, setStatus_status] at hnew
      split at hnew
      · cases hnew
      · exact absurd hnew hold

omit [DecidableEq W] in
theorem InOrder.obtained (h : m.InOrder data start) :
    m.obtained = (List.range m.obtained.length).map fun k => data (start + k) := by
  have hitems := h.items
  cases hpc : m.reader with
  | freeing slot item =>
    simp only [taken, hpc, List.length_append, List.length_singleton, List.range_succ, List.map_append,
      List.map_singleton] at hitems
    exact List.append_inj_left' hitems rfl
  | idle => simpa only [taken, hpc] using hitems
  | checking slot => simpa only [taken, hpc] using hitems
  | copying slot => simpa only [taken, hpc] using hitems
  | advancing slot item => simpa only [taken, hpc] using hitems

/-- Any writers and one reader, interleaved step by step: as long as no writer claims
an empty slot for an index that `reader_index_` has passed since the writer's test,
the `k`-th item obtained is the data of `initial_reader_index + k`, and what becomes
ready is the data of an index not consumed yet. -/
theorem timely_run_in_order (data memory : Nat → T) (initialReaderIndex : UInt64) (turns : List (Turn W))
    (htimely : TimelyRun data (init memory initialReaderIndex : Machine W T bits) turns) :
    let m := (init memory initialReaderIndex : Machine W T bits).run data turns
    m.obtained = (List.range m.obtained.length).map (fun k => data (initialReaderIndex.toNat + k)) ∧
    ∀ t slot, (m.shared.buffer slot).status ≠ .ready →
      ((m.step data t).shared.buffer slot).status = .ready →
      ∃ w index, t = .writer w ∧ m.writers w = .releasing index ∧ slot = slotOf bits index ∧
        ((m.step data t).shared.buffer slot).data = data index ∧
        (m.step data t).shared.readerIndex ≤ index := by
  intro m
  have h : m.InOrder data initialReaderIndex.toNat := (init_inOrder memory initialReaderIndex).run htimely
  refine ⟨h.obtained, ?_⟩
  intro t slot hold hnew
  obtain ⟨w, index, rfl, hpc, rfl, hshared⟩ := step_ready hold hnew
  refine ⟨w, index, rfl, hpc, rfl, ?_, ?_⟩
  · rw [hshared, setStatus_data]
    exact h.written w index hpc
  · rw [hshared]
    exact (h.holding w index (Or.inr hpc)).2.lower

end Machine

/-! ## A late claim

Both writers have index 1. The first passes the test of `reader_index_`, the second
writes the index and the reader consumes it, and the first claims the empty slot. -/

def consumeTurns : List (Turn Bool) := List.replicate 5 .reader

def writeTurns (w : Bool) (index : UInt64) : List (Turn Bool) := .call w index :: List.replicate 4 (.writer w)

def lateClaimTurns : List (Turn Bool) :=
  [.call true 1, .writer true] ++ writeTurns false 1 ++ consumeTurns ++ [.writer true, .writer true]

def lateClaimStart : Machine Bool Nat 1 := .init (fun _ => 0) 1

/-- Index 1 is consumed and its slot becomes ready with its data all the same; the
reader then obtains it a second time, in the place of index 3. -/
theorem late_claim_out_of_order :
    (let m := lateClaimStart.run id lateClaimTurns
     m.obtained = [1] ∧ m.shared.readerIndex = 2 ∧ m.writers true = .releasing 1 ∧
      (m.shared.buffer 1).status ≠ .ready ∧
      ((m.step id (.writer true)).shared.buffer 1).status = .ready ∧
      ((m.step id (.writer true)).shared.buffer 1).data = 1) ∧
    ¬ ∀ turns, (lateClaimStart.run id turns).obtained =
      (List.range (lateClaimStart.run id turns).obtained.length).map fun k => id (1 + k) := by
  refine ⟨by decide +kernel, ?_⟩
  intro h
  have hrun := h (lateClaimTurns ++ [.writer true] ++ writeTurns false 2 ++ consumeTurns ++ consumeTurns)
  revert hrun
  decide +kernel

/-- Both writers write index 1, the second finds the slot taken; then index 2. -/
def duplicateTurns : List (Turn Bool) :=
  writeTurns false 1 ++ [.call true 1, .writer true, .writer true] ++ consumeTurns ++ writeTurns true 2 ++
    consumeTurns

theorem timely_run_in_order_duplicateTurns :
    Machine.TimelyRun id lateClaimStart duplicateTurns ∧
      (lateClaimStart.run id duplicateTurns).obtained =
        (List.range (lateClaimStart.run id duplicateTurns).obtained.length).map (fun k => id (1 + k)) ∧
      (lateClaimStart.run id duplicateTurns).obtained.length = 2 := by
  have htimely : Machine.TimelyRun id lateClaimStart duplicateTurns := by decide +kernel
  have h := Machine.timely_run_in_order id (fun _ => 0) 1 duplicateTurns htimely
  exact ⟨htimely, h.1, by decide +kernel⟩

end HftPipeline
