import Mathlib

/-!
# The reorder buffer

`ReorderBuffer<T, CAPACITY>` with `CAPACITY = 2 ^ bits`, each call as one whole
operation. Indices are 64-bit. A slot is used again every `CAPACITY` indices; the
writers stay within a window behind the reader in which it belongs to one index.
-/
namespace HftPipeline

inductive WriteStatus where
  | likelySlowReader | likelySlowWriter | success | alreadyWritten
  deriving DecidableEq, Repr

/-- `ReorderBuffer::Status`. -/
inductive BufferStatus where
  | empty | locked | ready
  deriving DecidableEq, Repr

structure BufferSlot (T : Type) where
  data : T
  status : BufferStatus

structure ReorderBuffer (T : Type) (bits : Nat) where
  buffer : Nat → BufferSlot T
  readerIndex : Nat

namespace ReorderBuffer

variable {T : Type} {bits : Nat}

/-- The constructor: every slot is empty, its data is whatever the memory held. -/
def new (memory : Nat → T) (initialReaderIndex : UInt64) : ReorderBuffer T bits :=
  ⟨fun i => ⟨memory i, .empty⟩, initialReaderIndex.toNat⟩

/-- `index & MASK`. -/
def slotOf (bits index : Nat) : Nat := index &&& (2 ^ bits - 1)

/-- `reader_index + MAX_INDEX_AHEAD` in `size_t`. -/
def limit (bits readerIndex : Nat) : Nat := (readerIndex + (2 ^ bits - 1)) % 2 ^ 64

def setStatus (b : ReorderBuffer T bits) (slot : Nat) (status : BufferStatus) : ReorderBuffer T bits :=
  { b with buffer := Function.update b.buffer slot ⟨(b.buffer slot).data, status⟩ }

def setData (b : ReorderBuffer T bits) (slot : Nat) (data : T) : ReorderBuffer T bits :=
  { b with buffer := Function.update b.buffer slot ⟨data, (b.buffer slot).status⟩ }

/-- `reader_index_.fetch_add(1)`. -/
def advance (b : ReorderBuffer T bits) : ReorderBuffer T bits :=
  { b with readerIndex := (b.readerIndex + 1) % 2 ^ 64 }

@[simp] theorem setStatus_readerIndex (b : ReorderBuffer T bits) (slot : Nat) (status : BufferStatus) :
    (b.setStatus slot status).readerIndex = b.readerIndex := rfl

@[simp] theorem setData_readerIndex (b : ReorderBuffer T bits) (slot : Nat) (data : T) :
    (b.setData slot data).readerIndex = b.readerIndex := rfl

@[simp] theorem advance_buffer (b : ReorderBuffer T bits) : b.advance.buffer = b.buffer := rfl

@[simp] theorem setStatus_data (b : ReorderBuffer T bits) (slot i : Nat) (status : BufferStatus) :
    ((b.setStatus slot status).buffer i).data = (b.buffer i).data := by
  rw [setStatus]
  by_cases h : i = slot
  · subst h
    simp
  · simp [h]

@[simp] theorem setStatus_status (b : ReorderBuffer T bits) (slot i : Nat) (status : BufferStatus) :
    ((b.setStatus slot status).buffer i).status = if i = slot then status else (b.buffer i).status := by
  rw [setStatus]
  by_cases h : i = slot
  · subst h
    simp
  · simp [h]

@[simp] theorem setData_status (b : ReorderBuffer T bits) (slot i : Nat) (data : T) :
    ((b.setData slot data).buffer i).status = (b.buffer i).status := by
  rw [setData]
  by_cases h : i = slot
  · subst h
    simp
  · simp [h]

@[simp] theorem setData_data (b : ReorderBuffer T bits) (slot i : Nat) (data : T) :
    ((b.setData slot data).buffer i).data = if i = slot then data else (b.buffer i).data := by
  rw [setData]
  by_cases h : i = slot
  · subst h
    simp
  · simp [h]

def tryConsumeNext (b : ReorderBuffer T bits) : Option T × ReorderBuffer T bits :=
  let readerSlot := slotOf bits b.readerIndex
  if (b.buffer readerSlot).status ≠ .ready then (none, b)
  else (some (b.buffer readerSlot).data, b.advance.setStatus readerSlot .empty)

def tryClaimSlot (b : ReorderBuffer T bits) (index : Nat) : Bool × ReorderBuffer T bits :=
  if (b.buffer (slotOf bits index)).status = .empty then (true, b.setStatus (slotOf bits index) .locked)
  else (false, b)

/-- What a writer that is too far ahead reports, from the status of the reader's slot. -/
def tooFarAhead (b : ReorderBuffer T bits) (readerIndex : Nat) : WriteStatus :=
  if (b.buffer (slotOf bits readerIndex)).status = .ready then .likelySlowReader else .likelySlowWriter

def validateAndClaimSlot (b : ReorderBuffer T bits) (index : Nat) : WriteStatus × ReorderBuffer T bits :=
  if limit bits b.readerIndex ≤ index then (b.tooFarAhead b.readerIndex, b)
  else if index < b.readerIndex then (.alreadyWritten, b)
  else
    let (claimed, b) := b.tryClaimSlot index
    (if claimed then .success else .alreadyWritten, b)

def tryWriteTo (b : ReorderBuffer T bits) (data : T) (index : Nat) : WriteStatus × ReorderBuffer T bits :=
  let (status, b) := b.validateAndClaimSlot index
  if status ≠ .success then (status, b)
  else (.success, (b.setData (slotOf bits index) data).setStatus (slotOf bits index) .ready)

/-! ## Indices and slots -/

/-- The indices a writer may fill while the reader stands at `readerIndex`. -/
structure InWindow (bits readerIndex index : Nat) : Prop where
  lower : readerIndex ≤ index
  upper : index < readerIndex + (2 ^ bits - 1)
  fits : index + 1 < 2 ^ 64

theorem slotOf_eq_mod (bits index : Nat) : slotOf bits index = index % 2 ^ bits := by
  rw [slotOf, Nat.and_two_pow_sub_one_eq_mod]

/-- Within one window a slot belongs to one index. -/
theorem InWindow.eq_of_slotOf_eq {r i j : Nat} (hi : InWindow bits r i) (hj : InWindow bits r j)
    (h : slotOf bits i = slotOf bits j) : i = j := by
  rw [slotOf_eq_mod, slotOf_eq_mod] at h
  have hmod : i ≡ j [MOD 2 ^ bits] := h
  have hil := hi.lower
  have hjl := hj.lower
  have hiu := hi.upper
  have hju := hj.upper
  rcases Nat.le_total i j with hle | hle
  · have hdvd := (Nat.modEq_iff_dvd' hle).mp hmod
    have := Nat.eq_zero_of_dvd_of_lt hdvd (by omega)
    omega
  · have hdvd := (Nat.modEq_iff_dvd' hle).mp hmod.symm
    have := Nat.eq_zero_of_dvd_of_lt hdvd (by omega)
    omega

/-- What passes both tests of `validate_and_claim_slot` is in the window, also
where `reader_index + MAX_INDEX_AHEAD` wraps. -/
theorem inWindow_of_validated {r i : Nat} (hahead : ¬ limit bits r ≤ i) (hold : ¬ i < r) :
    InWindow bits r i := by
  have hle : limit bits r ≤ r + (2 ^ bits - 1) := Nat.mod_le _ _
  have hlt : limit bits r < 2 ^ 64 := Nat.mod_lt _ (by norm_num)
  exact ⟨by omega, by omega, by omega⟩

theorem InWindow.succ {r i : Nat} (h : InWindow bits r i) (hne : slotOf bits i ≠ slotOf bits r) :
    InWindow bits (r + 1) i := by
  have hlower := h.lower
  have hupper := h.upper
  have : i ≠ r := fun heq => hne (by rw [heq])
  exact ⟨by omega, by omega, h.fits⟩

/-! ## Whole operations -/

/-- Every slot is empty or ready with an item that may stand for its index. -/
def Intact (mayHold : Nat → T → Prop) (b : ReorderBuffer T bits) : Prop :=
  ∀ slot, (b.buffer slot).status = .empty ∨ (b.buffer slot).status = .ready ∧
    ∃ index, slotOf bits index = slot ∧ InWindow bits b.readerIndex index ∧
      mayHold index (b.buffer slot).data

/-- The index waits in the buffer for the reader. -/
def Written (b : ReorderBuffer T bits) (index : Nat) : Prop :=
  InWindow bits b.readerIndex index ∧ (b.buffer (slotOf bits index)).status = .ready

variable {mayHold mayHold' : Nat → T → Prop} {b : ReorderBuffer T bits}

theorem new_intact (memory : Nat → T) (initialReaderIndex : UInt64) :
    (new memory initialReaderIndex : ReorderBuffer T bits).Intact mayHold := fun _ => Or.inl rfl

theorem Intact.mono (h : b.Intact mayHold) (himp : ∀ i item, mayHold i item → mayHold' i item) :
    b.Intact mayHold' := by
  intro slot
  rcases h slot with hempty | ⟨hready, index, hslot, hwindow, hhold⟩
  · exact Or.inl hempty
  · exact Or.inr ⟨hready, index, hslot, hwindow, himp _ _ hhold⟩

/-! What a write comes to in each of its four cases. -/

theorem tooFarAhead_cases (b : ReorderBuffer T bits) (readerIndex : Nat) :
    b.tooFarAhead readerIndex = .likelySlowReader ∨ b.tooFarAhead readerIndex = .likelySlowWriter := by
  rw [tooFarAhead]
  split
  · exact Or.inl rfl
  · exact Or.inr rfl

theorem tryWriteTo_ahead (data : T) {index : Nat} (hahead : limit bits b.readerIndex ≤ index) :
    b.tryWriteTo data index = (b.tooFarAhead b.readerIndex, b) := by
  have hne : b.tooFarAhead b.readerIndex ≠ .success := by
    rcases b.tooFarAhead_cases b.readerIndex with h | h <;> rw [h] <;> simp
  simp [tryWriteTo, validateAndClaimSlot, hahead, hne]

theorem tryWriteTo_old (data : T) {index : Nat} (hahead : ¬ limit bits b.readerIndex ≤ index)
    (hold : index < b.readerIndex) : b.tryWriteTo data index = (.alreadyWritten, b) := by
  simp [tryWriteTo, validateAndClaimSlot, hahead, hold]

theorem tryWriteTo_taken (data : T) {index : Nat} (hahead : ¬ limit bits b.readerIndex ≤ index)
    (hold : ¬ index < b.readerIndex) (hready : (b.buffer (slotOf bits index)).status = .ready) :
    b.tryWriteTo data index = (.alreadyWritten, b) := by
  simp [tryWriteTo, validateAndClaimSlot, tryClaimSlot, hahead, hold, hready]

theorem tryWriteTo_free (data : T) {index : Nat} (hahead : ¬ limit bits b.readerIndex ≤ index)
    (hold : ¬ index < b.readerIndex) (hempty : (b.buffer (slotOf bits index)).status = .empty) :
    b.tryWriteTo data index = (.success, ((b.setStatus (slotOf bits index) .locked).setData
      (slotOf bits index) data).setStatus (slotOf bits index) .ready) := by
  simp [tryWriteTo, validateAndClaimSlot, tryClaimSlot, hahead, hold, hempty]

/-- A write that is not too far ahead leaves its index behind the reader or waiting
for it, whether it was written now or before. -/
theorem Intact.tryWriteTo (h : b.Intact mayHold) {data : T} {index : Nat} (hhold : mayHold index data)
    {status : WriteStatus} {b' : ReorderBuffer T bits} (hwrite : b.tryWriteTo data index = (status, b')) :
    b'.Intact mayHold ∧ b'.readerIndex = b.readerIndex ∧ (∀ i, b.Written i → b'.Written i) ∧
    (status = .likelySlowReader ∨ status = .likelySlowWriter ∨
      index < b'.readerIndex ∨ b'.Written index) := by
  by_cases hahead : limit bits b.readerIndex ≤ index
  · rw [tryWriteTo_ahead data hahead] at hwrite
    cases hwrite
    refine ⟨h, rfl, fun i hi => hi, ?_⟩
    rcases b.tooFarAhead_cases b.readerIndex with hne | hne
    · exact Or.inl hne
    · exact Or.inr (Or.inl hne)
  · by_cases hold : index < b.readerIndex
    · rw [tryWriteTo_old data hahead hold] at hwrite
      cases hwrite
      exact ⟨h, rfl, fun i hi => hi, Or.inr (Or.inr (Or.inl hold))⟩
    · have hwindow := inWindow_of_validated hahead hold
      rcases h (slotOf bits index) with hempty | ⟨hready, -⟩
      · rw [tryWriteTo_free data hahead hold hempty] at hwrite
        cases hwrite
        refine ⟨?_, rfl, ?_, Or.inr (Or.inr (Or.inr ⟨hwindow, by simp⟩))⟩
        · intro slot
          by_cases hslot : slot = slotOf bits index
          · subst hslot
            exact Or.inr ⟨by simp, index, rfl, hwindow, by simpa using hhold⟩
          · simpa [hslot] using h slot
        · intro i hi
          refine ⟨hi.1, ?_⟩
          by_cases hslot : slotOf bits i = slotOf bits index
          · simp [hslot]
          · simpa [hslot] using hi.2
      · rw [tryWriteTo_taken data hahead hold hready] at hwrite
        cases hwrite
        exact ⟨h, rfl, fun i hi => hi, Or.inr (Or.inr (Or.inr ⟨hwindow, hready⟩))⟩

/-- The reader gets the item of its index or, if that is not written, nothing. -/
theorem Intact.tryConsumeNext (h : b.Intact mayHold) {item : Option T} {b' : ReorderBuffer T bits}
    (hconsume : b.tryConsumeNext = (item, b')) :
    (item = none ∧ b' = b ∧ ¬ b.Written b.readerIndex) ∨
    ∃ data, item = some data ∧ mayHold b.readerIndex data ∧ b'.Intact mayHold ∧
      b'.readerIndex = b.readerIndex + 1 ∧ b.readerIndex + 1 < 2 ^ 64 ∧
      ∀ i, i ≠ b.readerIndex → b.Written i → b'.Written i := by
  by_cases hready : (b.buffer (slotOf bits b.readerIndex)).status = .ready
  · right
    rcases h (slotOf bits b.readerIndex) with hempty | ⟨-, i, hslot, hwindow, hhold⟩
    · rw [hready] at hempty
      cases hempty
    · have hupper := hwindow.upper
      have hlower := hwindow.lower
      have hself : InWindow bits b.readerIndex b.readerIndex :=
        ⟨le_refl _, by omega, by have := hwindow.fits; omega⟩
      obtain rfl := hwindow.eq_of_slotOf_eq hself hslot
      have hsucc : b.advance.readerIndex = b.readerIndex + 1 := Nat.mod_eq_of_lt hself.fits
      rw [ReorderBuffer.tryConsumeNext] at hconsume
      simp only [hready, ne_eq, not_true_eq_false, if_false, Prod.mk.injEq] at hconsume
      obtain ⟨rfl, rfl⟩ := hconsume
      refine ⟨_, rfl, hhold, ?_, by rw [setStatus_readerIndex, hsucc], hself.fits, ?_⟩
      · intro slot
        by_cases hs : slot = slotOf bits b.readerIndex
        · exact Or.inl (by simp [hs])
        · rcases h slot with hempty | ⟨hslotReady, j, hj, hjwindow, hjhold⟩
          · exact Or.inl (by simpa [hs] using hempty)
          · refine Or.inr ⟨by simpa [hs] using hslotReady, j, hj, ?_, by simpa using hjhold⟩
            rw [setStatus_readerIndex, hsucc]
            exact hjwindow.succ (by rw [hj]; exact hs)
      · intro j hne hj
        have hs : slotOf bits j ≠ slotOf bits b.readerIndex := fun hs =>
          hne (hj.1.eq_of_slotOf_eq hself hs)
        refine ⟨?_, by simpa [hs] using hj.2⟩
        rw [setStatus_readerIndex, hsucc]
        exact hj.1.succ hs
  · left
    rw [ReorderBuffer.tryConsumeNext, if_pos hready] at hconsume
    cases hconsume
    exact ⟨rfl, rfl, fun hw => hready hw.2⟩

end ReorderBuffer

end HftPipeline
