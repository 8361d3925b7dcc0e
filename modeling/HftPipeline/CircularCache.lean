import HftPipeline.Lib.VersionedCell

/-!
# The retransmit cache

`CircularCache`, and a machine whose steps are the single loads and stores of one writer
and any number of readers. Every slot is a versioned cell whose version is the index of
the item in it, so a reader that sees its index twice has copied that item.
-/
namespace HftPipeline

open VersionedCell

/-- `CircularCache::Error`. -/
inductive CacheError where
  | dataTooOld | dataDoesNotExist | concurrentWrite
  deriving DecidableEq, Repr

/-- A cache of `2 ^ bits` slots. -/
structure CircularCache (T : Type) (bits : Nat) where
  writeIndex : UInt64
  sequence : Nat → UInt32
  buffer : Nat → T

namespace CircularCache

variable {T : Type} {bits : Nat}

/-- `IS_LOCKED`. -/
def isLocked : UInt32 := 0xFFFFFFFF

/-- The words are zero at first; `memory` is what the slots hold. -/
def new (memory : Nat → T) : CircularCache T bits := ⟨0, fun _ => 0, memory⟩

/-- `index & MASK` as an `Index`. -/
def slotOf (bits index : Nat) : Nat := (index &&& (2 ^ bits - 1)) % 2 ^ 32

def setSequence (c : CircularCache T bits) (slot : Nat) (word : UInt32) : CircularCache T bits :=
  { c with sequence := Function.update c.sequence slot word }

def setBuffer (c : CircularCache T bits) (slot : Nat) (item : T) : CircularCache T bits :=
  { c with buffer := Function.update c.buffer slot item }

/-- The tests of `try_get_item` on the first sample. -/
def judge (seqBefore itemIndex : UInt32) : Option CacheError :=
  if seqBefore = isLocked then some .concurrentWrite
  else if seqBefore < itemIndex then some .dataDoesNotExist
  else if itemIndex < seqBefore then some .dataTooOld
  else none

def tryGetItem (c : CircularCache T bits) (itemIndex : UInt32) : Except CacheError T :=
  let readIndex := slotOf bits itemIndex.toNat
  match judge (c.sequence readIndex) itemIndex with
  | some error => .error error
  | none => .ok (c.buffer readIndex)

def putItem (c : CircularCache T bits) (item : T) : CircularCache T bits :=
  let slot := slotOf bits c.writeIndex.toNat
  let c := c.setSequence slot isLocked
  let c := c.setBuffer slot item
  let c := c.setSequence slot c.writeIndex.toUInt32
  { c with writeIndex := c.writeIndex + 1 }

/-- Where the writer stands in `put_item`. -/
inductive WriterPc (T : Type) where
  | idle
  | storing (item : T)
  | releasing (item : T)
  deriving DecidableEq

/-- A put is in progress. -/
def WriterPc.busy : WriterPc T → Bool
  | .idle => false
  | .storing _ | .releasing _ => true

/-- Where a reader stands in `try_get_item`. `completed` is how many puts had completed
when it entered. -/
inductive ReaderPc (T : Type) where
  | idle
  | sampling (itemIndex : UInt32) (completed : Nat)
  | loading (itemIndex : UInt32) (completed : Nat) (seqBefore : UInt32)
  | checking (itemIndex : UInt32) (completed : Nat) (seqBefore : UInt32) (item : T)
  deriving DecidableEq

/-- The call a reader is in. -/
def ReaderPc.call : ReaderPc T → Option (UInt32 × Nat)
  | .idle => none
  | .sampling itemIndex completed | .loading itemIndex completed _ | .checking itemIndex completed _ _ =>
    some (itemIndex, completed)

/-- The next step of `try_get_item`: on to another place, or back with a result. -/
def readerStep (c : CircularCache T bits) : ReaderPc T → ReaderPc T × Option (Except CacheError T)
  | .idle => (.idle, none)
  | .sampling itemIndex completed =>
    let seqBefore := c.sequence (slotOf bits itemIndex.toNat)
    match judge seqBefore itemIndex with
    | some error => (.idle, some (.error error))
    | none => (.loading itemIndex completed seqBefore, none)
  | .loading itemIndex completed seqBefore =>
    (.checking itemIndex completed seqBefore (c.buffer (slotOf bits itemIndex.toNat)), none)
  | .checking itemIndex _ seqBefore item =>
    if seqBefore ≠ c.sequence (slotOf bits itemIndex.toNat) then (.idle, some (.error .concurrentWrite))
    else (.idle, some (.ok item))

end CircularCache

open CircularCache

/-- A call of `try_get_item` that has returned: how many puts had completed when it began,
and how many had started when it ended. -/
structure Lookup (T : Type) where
  itemIndex : UInt32
  completed : Nat
  result : Except CacheError T
  started : Nat

/-- The cache, its writer, its readers, the items of the puts started so far and the
lookups that have returned. -/
structure CacheMachine (R T : Type) (bits : Nat) where
  cache : CircularCache T bits
  writer : WriterPc T
  readers : R → ReaderPc T
  items : List T
  lookups : List (Lookup T)

/-- The writer enters `put_item` and locks the slot, the writer goes on, a reader enters
`try_get_item`, or a reader goes on. -/
inductive CacheTurn (R T : Type) where
  | put (item : T)
  | write
  | get (r : R) (itemIndex : UInt32)
  | read (r : R)

namespace CacheMachine

variable {R T : Type} {bits : Nat} [DecidableEq R]

def init (memory : Nat → T) : CacheMachine R T bits := ⟨.new memory, .idle, fun _ => .idle, [], []⟩

/-- The slot of the put in progress or to come. -/
def slot (m : CacheMachine R T bits) : Nat := slotOf bits m.cache.writeIndex.toNat

def write (m : CacheMachine R T bits) : CacheMachine R T bits :=
  match m.writer with
  | .idle => m
  | .storing item => { m with cache := m.cache.setBuffer m.slot item, writer := .releasing item }
  | .releasing _ =>
    { m with
      cache :=
        { m.cache.setSequence m.slot m.cache.writeIndex.toUInt32 with
          writeIndex := m.cache.writeIndex + 1 }
      writer := .idle }

def read (m : CacheMachine R T bits) (r : R) : CacheMachine R T bits :=
  match (m.readers r).call with
  | none => m
  | some (itemIndex, completed) =>
    let (pc, result) := readerStep m.cache (m.readers r)
    { m with
      readers := Function.update m.readers r pc
      lookups := m.lookups ++ (result.map fun result => ⟨itemIndex, completed, result, m.items.length⟩).toList }

def step (m : CacheMachine R T bits) : CacheTurn R T → CacheMachine R T bits
  | .put item =>
    match m.writer with
    | .idle => { m with
        cache := m.cache.setSequence m.slot isLocked, writer := .storing item, items := m.items ++ [item] }
    | .storing _ | .releasing _ => m
  | .write => m.write
  | .get r itemIndex =>
    match m.readers r with
    | .idle => { m with
        readers := Function.update m.readers r (.sampling itemIndex m.cache.writeIndex.toNat) }
    | _ => m
  | .read r => m.read r

def run (m : CacheMachine R T bits) (turns : List (CacheTurn R T)) : CacheMachine R T bits :=
  turns.foldl step m

end CacheMachine

/-! ## Slots -/

namespace CircularCache

variable {T : Type} {bits : Nat}

theorem slotOf_eq_mod {index : Nat} (h : index < 2 ^ 32) : slotOf bits index = index % 2 ^ bits := by
  have hle : index % 2 ^ bits ≤ index := Nat.mod_le _ _
  rw [slotOf, Nat.and_two_pow_sub_one_eq_mod, Nat.mod_eq_of_lt (by omega)]

/-- Two indices of one slot are a lap apart. -/
theorem lap_of_slotOf_eq {i k : Nat} (hk : k < 2 ^ 32) (hlt : i < k) (hslot : slotOf bits k = slotOf bits i) :
    i + 2 ^ bits ≤ k := by
  rw [slotOf_eq_mod hk, slotOf_eq_mod (by omega)] at hslot
  have hdvd : 2 ^ bits ∣ k - i := (Nat.modEq_iff_dvd' hlt.le).mp hslot.symm
  have := Nat.le_of_dvd (by omega) hdvd
  omega

/-- A slot as a versioned cell. -/
def cellAt (c : CircularCache T bits) (slot : Nat) : Cell T where
  version := if c.sequence slot = isLocked then none else some (c.sequence slot).toNat
  data := c.buffer slot

theorem cellAt_version_eq_some {c : CircularCache T bits} {slot v : Nat} (h : (c.cellAt slot).version = some v) :
    c.sequence slot ≠ isLocked ∧ (c.sequence slot).toNat = v := by
  simp only [cellAt] at h
  split at h
  · cases h
  · rename_i hlocked
    exact ⟨hlocked, Option.some.inj h⟩

theorem cellAt_version {c : CircularCache T bits} {slot : Nat} (h : c.sequence slot ≠ isLocked) :
    (c.cellAt slot).version = some (c.sequence slot).toNat := if_neg h

@[simp] theorem setBuffer_version (c : CircularCache T bits) (slot slot' : Nat) (item : T) :
    ((c.setBuffer slot item).cellAt slot').version = (c.cellAt slot').version := rfl

theorem setSequence_cellAt_of_ne (c : CircularCache T bits) {slot slot' : Nat} (word : UInt32)
    (h : slot' ≠ slot) : (c.setSequence slot word).cellAt slot' = c.cellAt slot' := by
  have hword : (c.setSequence slot word).sequence slot' = c.sequence slot' := Function.update_of_ne h _ _
  simp only [cellAt, hword]
  rfl

theorem setBuffer_cellAt_of_ne (c : CircularCache T bits) {slot slot' : Nat} (item : T)
    (h : slot' ≠ slot) : (c.setBuffer slot item).cellAt slot' = c.cellAt slot' := by
  have hdata : (c.setBuffer slot item).buffer slot' = c.buffer slot' := Function.update_of_ne h _ _
  simp only [cellAt, hdata]
  rfl

theorem setSequence_version_self (c : CircularCache T bits) (slot : Nat) (word : UInt32) :
    ((c.setSequence slot word).cellAt slot).version = if word = isLocked then none else some word.toNat := by
  simp [cellAt, setSequence]

/-- The first sample passes exactly when it is the index. -/
theorem judge_eq_none {seqBefore itemIndex : UInt32} (h : judge seqBefore itemIndex = none) :
    seqBefore ≠ isLocked ∧ seqBefore = itemIndex := by
  rw [judge] at h
  split at h
  · cases h
  · rename_i hlocked
    split at h
    · cases h
    · rename_i hbefore
      split at h
      · cases h
      · rename_i hafter
        exact ⟨hlocked, UInt32.le_antisymm (UInt32.not_lt.mp hafter) (UInt32.not_lt.mp hbefore)⟩

theorem judge_self {word : UInt32} (h : word ≠ isLocked) : judge word word = none := by
  rw [judge, if_neg h, if_neg (UInt32.lt_irrefl _), if_neg (UInt32.lt_irrefl _)]

theorem judge_eq_dataDoesNotExist {seqBefore itemIndex : UInt32}
    (h : judge seqBefore itemIndex = some .dataDoesNotExist) : seqBefore ≠ isLocked ∧ seqBefore < itemIndex := by
  rw [judge] at h
  split at h
  · cases h
  · rename_i hlocked
    split at h
    · rename_i hbefore
      exact ⟨hlocked, hbefore⟩
    · split at h <;> cases h

end CircularCache

namespace CacheMachine

variable {R T : Type} {bits : Nat} [DecidableEq R] {m m' : CacheMachine R T bits}

/-- The number of completed puts. -/
def completed (m : CacheMachine R T bits) : Nat := m.cache.writeIndex.toNat

/-- In its slot, the item of a version is the item put under that number. -/
def Put (bits : Nat) (items : List T) (slot v : Nat) (x : T) : Prop := slotOf bits v = slot → items[v]? = some x

def ReaderSound (m : CacheMachine R T bits) : ReaderPc T → Prop
  | .idle => True
  | .sampling _ completed => completed ≤ m.completed
  | .loading itemIndex completed seqBefore =>
    completed ≤ m.completed ∧ seqBefore = itemIndex ∧ itemIndex.toNat < m.completed
  | .checking itemIndex completed seqBefore item =>
    completed ≤ m.completed ∧ seqBefore = itemIndex ∧
      Holds (Put bits m.items (slotOf bits itemIndex.toNat)) m.completed
        (m.cache.cellAt (slotOf bits itemIndex.toNat)) itemIndex.toNat item

/-- A lookup that succeeds has the item put under its index. One of an index that was put
before it began succeeds, unless the put a lap later has started. -/
def LookupSound (bits : Nat) (items : List T) (l : Lookup T) : Prop :=
  (∀ x, l.result = .ok x → items[l.itemIndex.toNat]? = some x) ∧
  (l.itemIndex.toNat < l.completed → l.result ≠ .error .dataDoesNotExist ∧
    ((∃ x, l.result = .ok x) ∨ l.itemIndex.toNat + 2 ^ bits < l.started))

structure Sound (m : CacheMachine R T bits) : Prop where
  first : 0 < m.completed
  count : m.items.length = m.completed + m.writer.busy.toNat
  cells : ∀ slot, Shows (Put bits m.items slot) m.completed (m.cache.cellAt slot)
  latest : ∀ v < m.completed, ∀ k, (m.cache.cellAt (slotOf bits v)).version = some k →
    v ≤ k ∧ slotOf bits k = slotOf bits v
  locked : ∀ slot, (m.cache.cellAt slot).version = none ↔ m.writer.busy = true ∧ slot = m.slot
  writing : ∀ item, m.writer = .storing item ∨ m.writer = .releasing item → m.items[m.completed]? = some item
  stored : ∀ item, m.writer = .releasing item → m.cache.buffer m.slot = item
  readers : ∀ r, m.ReaderSound (m.readers r)
  lookups : ∀ l ∈ m.lookups, LookupSound bits m.items l

/-! ## What the writer does to the readers -/

/-- Puts only go forward: no slot gets a version again that it had before. -/
structure Advances (m m' : CacheMachine R T bits) : Prop where
  completed : m.completed ≤ m'.completed
  items : m.items <+: m'.items
  version : ∀ slot, (m'.cache.cellAt slot).version = (m.cache.cellAt slot).version ∨
    ∀ w, (m'.cache.cellAt slot).version = some w → m.completed ≤ w

theorem Put.mono {items items' : List T} (h : items <+: items') {slot v : Nat} {x : T}
    (hput : Put bits items slot v x) : Put bits items' slot v x :=
  fun hslot => getElem?_of_prefix h (hput hslot)

omit [DecidableEq R] in
theorem ReaderSound.advance (h : m.Advances m') {pc : ReaderPc T} (hpc : m.ReaderSound pc) :
    m'.ReaderSound pc := by
  have hle := h.completed
  cases pc with
  | idle => trivial
  | sampling itemIndex completed => exact Nat.le_trans hpc hle
  | loading itemIndex completed seqBefore =>
    obtain ⟨hcompleted, hseq, hlt⟩ := hpc
    exact ⟨Nat.le_trans hcompleted hle, hseq, Nat.lt_of_lt_of_le hlt hle⟩
  | checking itemIndex completed seqBefore item =>
    obtain ⟨hcompleted, hseq, hholds⟩ := hpc
    have hholds := hholds.mono (fun v x => Put.mono h.items)
    refine ⟨Nat.le_trans hcompleted hle, hseq, ?_⟩
    rcases h.version (slotOf bits itemIndex.toNat) with hsame | hfresh
    · exact hholds.of_version_eq hle hsame
    · exact hholds.of_fresh hle hfresh

theorem LookupSound.mono {items items' : List T} (h : items <+: items') {l : Lookup T}
    (hl : LookupSound bits items l) : LookupSound bits items' l :=
  ⟨fun x hx => getElem?_of_prefix h (hl.1 x hx), hl.2⟩

/-! ## The steps of the writer -/

theorem Sound.put (h : m.Sound) (item : T) : (m.step (.put item)).Sound := by
  cases hwriter : m.writer with
  | storing old =>
    simp only [step, hwriter]
    exact h
  | releasing old =>
    simp only [step, hwriter]
    exact h
  | idle =>
    have hfree : ∀ slot, (m.cache.cellAt slot).version ≠ none := by
      intro slot hnone
      have hbusy := ((h.locked slot).mp hnone).1
      rw [hwriter] at hbusy
      cases hbusy
    have hlength := h.count
    simp only [hwriter, WriterPc.busy, Bool.toNat_false, Nat.add_zero] at hlength
    have hself : ((m.cache.setSequence m.slot isLocked).cellAt m.slot).version = none := by
      rw [setSequence_version_self, if_pos rfl]
    have hother : ∀ slot, slot ≠ m.slot →
        (m.cache.setSequence m.slot isLocked).cellAt slot = m.cache.cellAt slot :=
      fun slot hne => setSequence_cellAt_of_ne m.cache isLocked hne
    have hitems : m.items <+: m.items ++ [item] := List.prefix_append _ _
    have hadvances : m.Advances { m with
        cache := m.cache.setSequence m.slot isLocked, writer := .storing item, items := m.items ++ [item] } := by
      refine ⟨Nat.le_refl _, hitems, fun slot => ?_⟩
      by_cases hslot : slot = m.slot
      · rw [hslot]
        exact Or.inr fun w hw => by rw [hself] at hw; cases hw
      · rw [hother slot hslot]
        exact Or.inl rfl
    simp only [step, hwriter]
    refine ⟨h.first, ?_, ?_, ?_, ?_, ?_, fun _ hpc => (by cases hpc), fun r => (h.readers r).advance hadvances,
      fun l hl => (h.lookups l hl).mono hitems⟩
    · simp only [List.length_append, List.length_singleton, WriterPc.busy, Bool.toNat_true, hlength]
      rfl
    · intro slot
      by_cases hslot : slot = m.slot
      · rw [hslot]
        exact Shows.of_locked hself
      · show Shows _ _ ((m.cache.setSequence m.slot isLocked).cellAt slot)
        rw [hother slot hslot]
        exact (h.cells slot).mono fun v x => Put.mono hitems
    · intro v hv k hk
      by_cases hslot : slotOf bits v = m.slot
      · simp only [hslot] at hk
        rw [hself] at hk
        cases hk
      · simp only [hother _ hslot] at hk
        exact h.latest v hv k hk
    · intro slot
      by_cases hslot : slot = m.slot
      · rw [hslot]
        exact iff_of_true hself ⟨rfl, rfl⟩
      · simp only [hother slot hslot]
        exact iff_of_false (hfree slot) fun hlocked => hslot hlocked.2
    · intro item' hpc
      rcases hpc with hpc | hpc
      · cases hpc
        show (m.items ++ [item])[m.completed]? = some item
        rw [← hlength, List.getElem?_concat_length]
      · cases hpc

omit [DecidableEq R] in
theorem Sound.store (h : m.Sound) {item : T} (hwriter : m.writer = .storing item) : m.write.Sound := by
  have hversion : ∀ slot, ((m.cache.setBuffer m.slot item).cellAt slot).version = (m.cache.cellAt slot).version :=
    fun slot => setBuffer_version m.cache m.slot slot item
  have hbusy : m.writer.busy = true := by rw [hwriter]; rfl
  have hadvances : m.Advances { m with cache := m.cache.setBuffer m.slot item, writer := .releasing item } :=
    ⟨Nat.le_refl _, List.prefix_refl _, fun slot => Or.inl (hversion slot)⟩
  simp only [write, hwriter]
  refine ⟨h.first, ?_, ?_, ?_, ?_, ?_, ?_, fun r => (h.readers r).advance hadvances, h.lookups⟩
  · have hcount := h.count
    rw [hbusy] at hcount
    exact hcount
  · intro slot
    by_cases hslot : slot = m.slot
    · exact Shows.of_locked ((hversion slot).trans ((h.locked slot).mpr ⟨hbusy, hslot⟩))
    · show Shows _ _ ((m.cache.setBuffer m.slot item).cellAt slot)
      rw [setBuffer_cellAt_of_ne m.cache item hslot]
      exact h.cells slot
  · intro v hv k hk
    exact h.latest v hv k ((hversion _).symm.trans hk)
  · intro slot
    have hlocked := h.locked slot
    rw [hbusy] at hlocked
    exact hlocked
  · intro item' hpc
    rcases hpc with hpc | hpc
    · cases hpc
    · cases hpc
      exact h.writing item (Or.inl hwriter)
  · intro item' hpc
    cases hpc
    exact Function.update_self _ _ _

/-- A put is completed: its slot is unlocked with its number, and nothing else is changed. -/
structure Released (m m' : CacheMachine R T bits) : Prop where
  completed : m'.completed = m.completed + 1
  items : m'.items = m.items
  idle : m'.writer = .idle
  readers : m'.readers = m.readers
  lookups : m'.lookups = m.lookups
  other : ∀ slot, slot ≠ m.slot → m'.cache.cellAt slot = m.cache.cellAt slot
  version : (m'.cache.cellAt m.slot).version = some m.completed
  data : (m'.cache.cellAt m.slot).data = m.cache.buffer m.slot

section

omit [DecidableEq R]

theorem Released.advances (h : Released m m') : m.Advances m' := by
  refine ⟨by rw [h.completed]; omega, by rw [h.items], fun slot => ?_⟩
  by_cases hslot : slot = m.slot
  · refine Or.inr fun w hw => ?_
    rw [hslot, h.version] at hw
    cases hw
    exact Nat.le_refl _
  · exact Or.inl (by rw [h.other slot hslot])

/-- The number of the put is below the word that stands for a locked slot. -/
theorem Sound.released (h : m.Sound) (hbound : m.items.length < 2 ^ 32 - 1) {item : T}
    (hwriter : m.writer = .releasing item) : Released m m.write := by
  have hlength := h.count
  rw [hwriter, WriterPc.busy, Bool.toNat_true] at hlength
  have hword : m.cache.writeIndex.toUInt32.toNat = m.completed := by
    rw [UInt64.toNat_toUInt32]
    exact Nat.mod_eq_of_lt (by show m.completed < 2 ^ 32; omega)
  have hnext : (m.cache.writeIndex + 1).toNat = m.completed + 1 := by
    rw [UInt64.toNat_add, UInt64.toNat_one]
    show (m.completed + 1) % 2 ^ 64 = _
    omega
  have hunlocked : m.cache.writeIndex.toUInt32 ≠ isLocked := by
    intro hlocked
    have : m.completed = 2 ^ 32 - 1 := by rw [← hword, hlocked]; rfl
    omega
  have hwrite : m.write = { m with
      cache :=
        { m.cache.setSequence m.slot m.cache.writeIndex.toUInt32 with
          writeIndex := m.cache.writeIndex + 1 }
      writer := .idle } := by
    simp only [write, hwriter]
  rw [hwrite]
  refine ⟨hnext, rfl, rfl, rfl, rfl, fun slot hne => setSequence_cellAt_of_ne m.cache _ hne, ?_, rfl⟩
  show ((m.cache.setSequence m.slot m.cache.writeIndex.toUInt32).cellAt m.slot).version = _
  rw [setSequence_version_self, if_neg hunlocked, hword]

end

omit [DecidableEq R] in
theorem Released.sound (hreleased : Released m m') (h : m.Sound) {item : T} (hwriter : m.writer = .releasing item) :
    m'.Sound := by
  have hbusy : m.writer.busy = true := by rw [hwriter]; rfl
  have hlength := h.count
  rw [hbusy, Bool.toNat_true] at hlength
  refine ⟨?_, ?_, ?_, ?_, ?_, ?_, ?_, fun r => ?_, ?_⟩
  · rw [hreleased.completed]
    omega
  · rw [hreleased.completed, hreleased.items, hreleased.idle, hlength]
    rfl
  · intro slot
    rw [hreleased.completed, hreleased.items]
    by_cases hslot : slot = m.slot
    · rw [hslot]
      refine Shows.release ?_ hreleased.version
      intro _
      rw [hreleased.data, h.stored item hwriter]
      exact h.writing item (Or.inr hwriter)
    · rw [hreleased.other slot hslot]
      exact (h.cells slot).later
  · intro v hv k hk
    rw [hreleased.completed] at hv
    by_cases hslot : slotOf bits v = m.slot
    · rw [hslot, hreleased.version] at hk
      cases hk
      exact ⟨by omega, hslot.symm⟩
    · rw [hreleased.other _ hslot] at hk
      have hne : v ≠ m.completed := fun heq => hslot (by rw [heq]; rfl)
      exact h.latest v (by omega) k hk
  · intro slot
    refine iff_of_false ?_ ?_
    · by_cases hslot : slot = m.slot
      · rw [hslot, hreleased.version]
        exact Option.some_ne_none _
      · rw [hreleased.other slot hslot]
        exact fun hnone => hslot ((h.locked slot).mp hnone).2
    · rw [hreleased.idle]
      exact fun hlocked => by cases hlocked.1
  · intro item' hpc
    rw [hreleased.idle] at hpc
    rcases hpc with hpc | hpc <;> cases hpc
  · intro item' hpc
    rw [hreleased.idle] at hpc
    cases hpc
  · rw [hreleased.readers]
    exact (h.readers r).advance hreleased.advances
  · rw [hreleased.lookups, hreleased.items]
    exact h.lookups

/-! ## The steps of a reader -/

omit [DecidableEq R] in
/-- An index that was put and is not in its slot has been overtaken by the put a lap later. -/
theorem Sound.overwritten (h : m.Sound) (hbound : m.items.length < 2 ^ 32 - 1) {i : Nat}
    (hi : i < m.completed) (hne : (m.cache.cellAt (slotOf bits i)).version ≠ some i) :
    i + 2 ^ bits < m.items.length := by
  have hcount := h.count
  cases hversion : (m.cache.cellAt (slotOf bits i)).version with
  | none =>
    obtain ⟨hbusy, hslot⟩ := (h.locked _).mp hversion
    rw [hbusy, Bool.toNat_true] at hcount
    have hlap := lap_of_slotOf_eq (by omega) hi hslot.symm
    omega
  | some k =>
    obtain ⟨hle, hslot⟩ := h.latest i hi k hversion
    have hk := (h.cells _ k hversion).1
    have hik : i ≠ k := fun heq => hne (by rw [hversion, heq])
    have hlap := lap_of_slotOf_eq (by omega) (by omega : i < k) hslot
    omega

section

omit [DecidableEq R]

/-- An index the first sample refuses is overtaken, if it was put before the lookup began. -/
theorem Sound.refused (h : m.Sound) (hbound : m.items.length < 2 ^ 32 - 1) {itemIndex : UInt32} {completed : Nat}
    (hcompleted : completed ≤ m.completed) {error : CacheError}
    (hjudge : judge (m.cache.sequence (slotOf bits itemIndex.toNat)) itemIndex = some error) :
    LookupSound bits m.items ⟨itemIndex, completed, .error error, m.items.length⟩ := by
  refine ⟨fun x hx => (by cases hx), fun hlt => ?_⟩
  have hi : itemIndex.toNat < m.completed := Nat.lt_of_lt_of_le hlt hcompleted
  refine ⟨?_, Or.inr (h.overwritten hbound hi ?_)⟩
  · intro herror
    cases herror
    obtain ⟨hunlocked, hbefore⟩ := judge_eq_dataDoesNotExist hjudge
    have hle := (h.latest _ hi _ (cellAt_version hunlocked)).1
    have hbefore : (m.cache.sequence (slotOf bits itemIndex.toNat)).toNat < itemIndex.toNat := hbefore
    omega
  · intro hversion
    obtain ⟨hunlocked, heq⟩ := cellAt_version_eq_some hversion
    rw [UInt32.toNat_inj.mp heq] at hunlocked hjudge
    rw [judge_self hunlocked] at hjudge
    cases hjudge

/-- So is one whose sequence word changed while the reader copied the item. -/
theorem Sound.changed (h : m.Sound) (hbound : m.items.length < 2 ^ 32 - 1) {itemIndex : UInt32}
    (hput : itemIndex.toNat < m.completed)
    (hchanged : itemIndex ≠ m.cache.sequence (slotOf bits itemIndex.toNat)) (completed : Nat) :
    LookupSound bits m.items ⟨itemIndex, completed, .error .concurrentWrite, m.items.length⟩ := by
  refine ⟨fun x hx => (by cases hx), fun _ => ⟨by simp, Or.inr (h.overwritten hbound hput ?_)⟩⟩
  intro hversion
  exact hchanged (UInt32.toNat_inj.mp (cellAt_version_eq_some hversion).2).symm

end

omit [DecidableEq R] in
/-- A copy taken between two equal samples is the item of that index. -/
theorem Sound.unchanged (h : m.Sound) (hbound : m.items.length < 2 ^ 32 - 1) {itemIndex : UInt32} {item : T}
    (hholds : Holds (Put bits m.items (slotOf bits itemIndex.toNat)) m.completed
      (m.cache.cellAt (slotOf bits itemIndex.toNat)) itemIndex.toNat item)
    (hsame : m.cache.sequence (slotOf bits itemIndex.toNat) = itemIndex) (completed : Nat) :
    LookupSound bits m.items ⟨itemIndex, completed, .ok item, m.items.length⟩ := by
  refine ⟨?_, fun _ => ⟨by simp, Or.inl ⟨item, rfl⟩⟩⟩
  intro x hx
  cases hx
  have hunlocked : m.cache.sequence (slotOf bits itemIndex.toNat) ≠ isLocked := by
    intro hlocked
    have hlt := hholds.1
    have hcount := h.count
    have hmax : itemIndex.toNat = 2 ^ 32 - 1 := by rw [← hsame, hlocked]; rfl
    omega
  have hversion := cellAt_version hunlocked
  rw [hsame] at hversion
  exact hholds.2 hversion rfl

omit [DecidableEq R] in
/-- What a step of a reader returns. -/
theorem Sound.returned (h : m.Sound) (hbound : m.items.length < 2 ^ 32 - 1) {pc : ReaderPc T}
    (hpc : m.ReaderSound pc) :
    m.ReaderSound (readerStep m.cache pc).1 ∧
      ∀ itemIndex completed result, pc.call = some (itemIndex, completed) →
        (readerStep m.cache pc).2 = some result →
        LookupSound bits m.items ⟨itemIndex, completed, result, m.items.length⟩ := by
  cases pc with
  | idle => exact ⟨trivial, fun _ _ _ hcall => by cases hcall⟩
  | sampling itemIndex completed =>
    have hcompleted : completed ≤ m.completed := hpc
    cases hjudge : judge (m.cache.sequence (slotOf bits itemIndex.toNat)) itemIndex with
    | none =>
      obtain ⟨hunlocked, hseq⟩ := judge_eq_none hjudge
      simp only [readerStep, hjudge]
      refine ⟨⟨hcompleted, hseq, ?_⟩, fun _ _ _ _ hresult => by cases hresult⟩
      have hversion := cellAt_version hunlocked
      rw [hseq] at hversion
      exact (h.cells _ _ hversion).1
    | some error =>
      simp only [readerStep, hjudge]
      refine ⟨trivial, ?_⟩
      intro itemIndex' completed' result hcall hresult
      cases hcall
      cases hresult
      exact h.refused hbound hcompleted hjudge
  | loading itemIndex completed seqBefore =>
    obtain ⟨hcompleted, hseq, hlt⟩ := hpc
    exact ⟨⟨hcompleted, hseq, (h.cells _).copy hlt⟩, fun _ _ _ _ hresult => by cases hresult⟩
  | checking itemIndex completed seqBefore item =>
    obtain ⟨hcompleted, rfl, hholds⟩ := hpc
    simp only [readerStep]
    split
    · rename_i hchanged
      refine ⟨trivial, ?_⟩
      intro itemIndex' completed' result hcall hresult
      cases hcall
      cases hresult
      exact h.changed hbound hholds.1 hchanged completed
    · rename_i hsame
      refine ⟨trivial, ?_⟩
      intro itemIndex' completed' result hcall hresult
      cases hcall
      cases hresult
      exact h.unchanged hbound hholds (not_not.mp hsame).symm completed

/-- A reader changes nothing but its own place and what it returns. -/
theorem Sound.move (h : m.Sound) (r : R) {pc : ReaderPc T} (hpc : m.ReaderSound pc) {lookups : List (Lookup T)}
    (hlookups : ∀ l ∈ lookups, LookupSound bits m.items l) :
    Sound { m with readers := Function.update m.readers r pc, lookups := m.lookups ++ lookups } := by
  refine ⟨h.first, h.count, h.cells, h.latest, h.locked, h.writing, h.stored, ?_, ?_⟩
  · intro r'
    show m.ReaderSound (Function.update m.readers r pc r')
    by_cases hr : r' = r
    · rw [hr, Function.update_self]
      exact hpc
    · rw [Function.update_of_ne hr]
      exact h.readers r'
  · intro l hl
    rcases List.mem_append.mp hl with hold | hnew
    · exact h.lookups l hold
    · exact hlookups l hnew

theorem Sound.read (h : m.Sound) (hbound : m.items.length < 2 ^ 32 - 1) (r : R) : (m.read r).Sound := by
  obtain ⟨hnext, hreturned⟩ := h.returned hbound (h.readers r)
  rw [CacheMachine.read]
  split
  · exact h
  · rename_i itemIndex completed hcall
    refine h.move r hnext fun l hl => ?_
    obtain ⟨result, hresult, rfl⟩ := Option.map_eq_some_iff.mp (Option.mem_toList.mp hl)
    exact hreturned itemIndex completed result hcall hresult

theorem Sound.get (h : m.Sound) (r : R) (itemIndex : UInt32) : (m.step (.get r itemIndex)).Sound := by
  have hpc : m.ReaderSound (.sampling itemIndex m.cache.writeIndex.toNat) := Nat.le_refl _
  have hmove := h.move r hpc (fun l (hl : l ∈ []) => by cases hl)
  rw [List.append_nil] at hmove
  simp only [step]
  split
  · exact hmove
  · exact h

/-! ## What the writer leaves alone -/

theorem step_put (h : m.writer.busy = false) (item : T) :
    m.step (.put item) = { m with
      cache := m.cache.setSequence m.slot isLocked, writer := .storing item, items := m.items ++ [item] } := by
  cases hwriter : m.writer with
  | idle => simp only [CacheMachine.step, hwriter]
  | storing _ | releasing _ =>
    rw [hwriter] at h
    cases h

theorem step_write (m : CacheMachine R T bits) (hbound : m.completed < 2 ^ 32) :
    (m.step .write).items = m.items ∧ (m.step .write).readers = m.readers ∧
      (m.step .write).lookups = m.lookups ∧ m.completed ≤ (m.step .write).completed := by
  simp only [CacheMachine.step, CacheMachine.write]
  split
  · exact ⟨rfl, rfl, rfl, Nat.le_refl _⟩
  · exact ⟨rfl, rfl, rfl, Nat.le_refl _⟩
  · refine ⟨rfl, rfl, rfl, ?_⟩
    show m.completed ≤ (m.cache.writeIndex + 1).toNat
    rw [UInt64.toNat_add, UInt64.toNat_one]
    have heq : m.cache.writeIndex.toNat = m.completed := rfl
    omega

/-! ## What a reader leaves alone -/

/-- Nothing but the readers and their results differs. -/
def SameStore (m m' : CacheMachine R T bits) : Prop :=
  m'.cache = m.cache ∧ m'.writer = m.writer ∧ m'.items = m.items

theorem step_get (m : CacheMachine R T bits) (r : R) (itemIndex : UInt32) :
    m.SameStore (m.step (.get r itemIndex)) ∧ (m.step (.get r itemIndex)).lookups = m.lookups ∧
      ∀ r' call, ((m.step (.get r itemIndex)).readers r').call = some call →
        (m.readers r').call = some call ∨ call = (itemIndex, m.completed) := by
  simp only [CacheMachine.step]
  split
  · refine ⟨⟨rfl, rfl, rfl⟩, rfl, ?_⟩
    intro r' call hcall
    simp only at hcall
    by_cases hr : r' = r
    · rw [hr, Function.update_self] at hcall
      exact Or.inr (Option.some.inj hcall).symm
    · rw [Function.update_of_ne hr] at hcall
      exact Or.inl hcall
  · exact ⟨⟨rfl, rfl, rfl⟩, rfl, fun r' call hcall => Or.inl hcall⟩

/-- A call stays the same until it returns. -/
theorem readerStep_call {c : CircularCache T bits} {pc : ReaderPc T} {call : UInt32 × Nat}
    (h : (readerStep c pc).1.call = some call) : pc.call = some call := by
  cases pc with
  | idle => exact h
  | sampling itemIndex completed =>
    simp only [readerStep] at h
    split at h
    · cases h
    · exact h
  | loading itemIndex completed seqBefore => exact h
  | checking itemIndex completed seqBefore item =>
    simp only [readerStep] at h
    split at h <;> cases h

theorem step_read (m : CacheMachine R T bits) (r : R) :
    m.SameStore (m.step (.read r)) ∧
      (∀ l ∈ (m.step (.read r)).lookups, l ∈ m.lookups ∨ (m.readers r).call = some (l.itemIndex, l.completed)) ∧
      ∀ r' call, ((m.step (.read r)).readers r').call = some call → (m.readers r').call = some call := by
  simp only [CacheMachine.step, CacheMachine.read]
  split
  · exact ⟨⟨rfl, rfl, rfl⟩, fun l hl => Or.inl hl, fun r' call hcall => hcall⟩
  · rename_i itemIndex completed hcall
    refine ⟨⟨rfl, rfl, rfl⟩, ?_, ?_⟩
    · intro l hl
      rcases List.mem_append.mp hl with hold | hnew
      · exact Or.inl hold
      · obtain ⟨result, -, rfl⟩ := Option.map_eq_some_iff.mp (Option.mem_toList.mp hnew)
        exact Or.inr hcall
    · intro r' call hcall'
      simp only at hcall'
      by_cases hr : r' = r
      · rw [hr, Function.update_self] at hcall'
        rw [hr]
        exact readerStep_call hcall'
      · rw [Function.update_of_ne hr] at hcall'
        exact hcall'

/-! ## Whole runs -/

theorem Sound.step (h : m.Sound) (hbound : m.items.length < 2 ^ 32 - 1) (t : CacheTurn R T) :
    (m.step t).Sound := by
  cases t with
  | put item => exact h.put item
  | write =>
    show m.write.Sound
    cases hwriter : m.writer with
    | idle =>
      simp only [CacheMachine.write, hwriter]
      exact h
    | storing item => exact h.store hwriter
    | releasing item => exact (h.released hbound hwriter).sound h hwriter
  | get r itemIndex => exact h.get r itemIndex
  | read r => exact h.read hbound r

theorem step_items (m : CacheMachine R T bits) (t : CacheTurn R T) : m.items <+: (m.step t).items := by
  cases t with
  | put item =>
    simp only [CacheMachine.step]
    split
    · exact List.prefix_append _ _
    · exact List.prefix_refl _
    · exact List.prefix_refl _
  | write =>
    simp only [CacheMachine.step, CacheMachine.write]
    split <;> exact List.prefix_refl _
  | get r itemIndex =>
    simp only [CacheMachine.step]
    split <;> exact List.prefix_refl _
  | read r =>
    simp only [CacheMachine.step, CacheMachine.read]
    split <;> exact List.prefix_refl _

theorem run_items (m : CacheMachine R T bits) (turns : List (CacheTurn R T)) :
    m.items <+: (m.run turns).items := by
  induction turns generalizing m with
  | nil => exact List.prefix_refl _
  | cons t turns ih => exact (step_items m t).trans (ih (m.step t))

theorem Sound.run (h : m.Sound) (turns : List (CacheTurn R T))
    (hbound : (m.run turns).items.length < 2 ^ 32 - 1) : (m.run turns).Sound := by
  induction turns generalizing m with
  | nil => exact h
  | cons t turns ih =>
    have hlength := (run_items m (t :: turns)).length_le
    exact ih (h.step (by omega) t) hbound

/-- The cache after one uninterrupted put. -/
def afterFirst (memory : Nat → T) (item : T) : CacheMachine R T bits :=
  (init memory).run [.put item, .write, .write]

theorem afterFirst_eq (memory : Nat → T) (item : T) :
    (afterFirst memory item : CacheMachine R T bits) =
      ⟨⟨1, fun _ => 0, Function.update memory 0 item⟩, .idle, fun _ => .idle, [item], []⟩ := by
  have hslot : slotOf bits 0 = 0 := by simp [slotOf]
  have hwords : Function.update (Function.update (fun _ => 0) 0 isLocked) 0 0 = fun _ : Nat => (0 : UInt32) := by
    funext slot
    by_cases h : slot = 0 <;> simp [Function.update, h]
  simp [afterFirst, init, CacheMachine.run, CacheMachine.step, CacheMachine.write, slot, CircularCache.new,
    setSequence, setBuffer, hslot, hwords]

theorem sound_afterFirst (memory : Nat → T) (item : T) :
    (afterFirst memory item : CacheMachine R T bits).Sound := by
  have hslot : slotOf bits 0 = 0 := by simp [slotOf]
  have hversion : ∀ slot, ((⟨1, fun _ => 0, Function.update memory 0 item⟩ :
      CircularCache T bits).cellAt slot).version = some 0 := by
    intro slot
    rw [cellAt_version (show (0 : UInt32) ≠ isLocked by decide)]
    rfl
  rw [afterFirst_eq]
  refine ⟨Nat.one_pos, rfl, ?_, ?_, ?_, ?_, ?_, fun _ => trivial, by simp⟩
  · intro slot v hv
    rw [hversion] at hv
    cases hv
    refine ⟨Nat.one_pos, ?_⟩
    intro heq
    rw [hslot] at heq
    rw [← heq]
    simp [cellAt]
  · intro v hv k hk
    rw [hversion] at hk
    cases hk
    have hv : v < 1 := hv
    have hzero : v = 0 := by omega
    rw [hzero]
    exact ⟨Nat.le_refl 0, rfl⟩
  · intro slot
    rw [hversion]
    exact iff_of_false (by simp) fun hlocked => by cases hlocked.1
  · intro item' hpc
    rcases hpc with hpc | hpc <;> cases hpc
  · intro item' hpc
    cases hpc

/-- The cache up to the end of its first put. -/
inductive Opening : CacheMachine R T bits → Prop
  | fresh (memory : Nat → T) : Opening (init memory)
  | locked (memory : Nat → T) (item : T) : Opening ((init memory).step (.put item))
  | stored (memory : Nat → T) (item : T) : Opening (((init memory).step (.put item)).step .write)

theorem Opening.put (h : m.Opening) (item : T) : (m.step (.put item)).Opening := by
  cases h with
  | fresh memory => exact .locked memory item
  | locked memory item' => exact .locked memory item'
  | stored memory item' => exact .stored memory item'

theorem Opening.write (h : m.Opening) : (m.step .write).Opening ∨ (m.step .write).Sound := by
  cases h with
  | fresh memory => exact Or.inl (.fresh memory)
  | locked memory item => exact Or.inl (.stored memory item)
  | stored memory item => exact Or.inr (sound_afterFirst memory item)

theorem Opening.quiet (h : m.Opening) :
    m.completed = 0 ∧ (∀ r, m.readers r = .idle) ∧ m.lookups = [] ∧ m.items.length = m.writer.busy.toNat := by
  cases h <;> exact ⟨rfl, fun _ => rfl, rfl, rfl⟩

/-! ## Puts one after another -/

theorem run_put (h : m.writer = .idle) (item : T) :
    m.run [.put item, .write, .write] = { m with cache := m.cache.putItem item, items := m.items ++ [item] } := by
  obtain ⟨cache, writer, readers, items, lookups⟩ := m
  have h : writer = .idle := h
  rw [h]
  rfl

omit [DecidableEq R] in
/-- What an uninterrupted lookup gets is the item put under its index. -/
theorem Sound.tryGetItem (h : m.Sound) {i : UInt32} {x : T} (hx : m.cache.tryGetItem i = .ok x) :
    m.items[i.toNat]? = some x := by
  simp only [CircularCache.tryGetItem] at hx
  split at hx
  · cases hx
  · rename_i hjudge
    obtain ⟨hunlocked, hseq⟩ := judge_eq_none hjudge
    have hversion := cellAt_version hunlocked
    rw [hseq] at hversion
    cases hx
    exact (h.cells _ _ hversion).2 rfl

theorem Opening.put_complete (items : List T) (h : m.Opening ∨ m.Sound) (hwriter : m.writer = .idle)
    (hbound : m.items.length + items.length < 2 ^ 32 - 1) :
    ∃ m' : CacheMachine R T bits, (m'.Opening ∨ m'.Sound) ∧ m'.writer = .idle ∧
      m'.cache = items.foldl putItem m.cache ∧ m'.items = m.items ++ items := by
  induction items generalizing m with
  | nil => exact ⟨m, h, hwriter, rfl, (List.append_nil _).symm⟩
  | cons item items ih =>
    rw [List.length_cons] at hbound
    have hrun := run_put hwriter item
    have hlength : (m.run [.put item, .write, .write]).items.length = m.items.length + 1 := by
      rw [hrun, List.length_append, List.length_singleton]
    have hnext : (m.run [.put item, .write, .write]).Opening ∨ (m.run [.put item, .write, .write]).Sound := by
      rcases h with hopening | hsound
      · rcases (hopening.put item).write with hstored | hsound
        · exact hstored.write
        · have hle := (((m.step (.put item)).step .write).step_items .write).length_le
          have hle : ((m.step (.put item)).step .write).items.length ≤ m.items.length + 1 := hlength ▸ hle
          exact Or.inr (hsound.step (by omega) .write)
      · refine Or.inr (hsound.run _ ?_)
        omega
    obtain ⟨m', hm', hidle, hcache, hitems⟩ := ih hnext (by rw [hrun]; exact hwriter) (by omega)
    refine ⟨m', hm', hidle, ?_, ?_⟩
    · rw [hcache, hrun]
      rfl
    · rw [hitems, hrun, List.append_assoc]
      rfl

/-- In every interleaving after the first put, with fewer than `2 ^ 32 - 1` puts in all:
an item that a reader obtains is the item put under its index. -/
theorem lookup_returns_put (memory : Nat → T) (item : T) (turns : List (CacheTurn R T))
    (hbound : ((afterFirst memory item : CacheMachine R T bits).run turns).items.length < 2 ^ 32 - 1) :
    ∀ l ∈ ((afterFirst memory item : CacheMachine R T bits).run turns).lookups, ∀ x, l.result = .ok x →
      ((afterFirst memory item : CacheMachine R T bits).run turns).items[l.itemIndex.toNat]? = some x := by
  intro l hl x hx
  exact (((sound_afterFirst memory item).run turns hbound).lookups l hl).1 x hx

end CacheMachine

/-- After puts one after another, a lookup gets the item put under its index. -/
theorem CircularCache.tryGetItem_putItem {T : Type} {bits : Nat} (memory : Nat → T) {items : List T}
    (hbound : items.length < 2 ^ 32 - 1) {i : UInt32} (hi : i.toNat < items.length) {x : T}
    (hx : (items.foldl putItem (new memory : CircularCache T bits)).tryGetItem i = .ok x) :
    items[i.toNat]? = some x := by
  obtain ⟨m, hm, hidle, hcache, hitems⟩ := CacheMachine.Opening.put_complete items
    (m := (CacheMachine.init memory : CacheMachine Unit T bits)) (Or.inl (.fresh memory)) rfl
    (by show 0 + items.length < _; omega)
  have hitems : m.items = items := hitems
  have hsound : m.Sound := by
    refine hm.resolve_left fun hopening => ?_
    have hlength := hopening.quiet.2.2.2
    rw [hidle, hitems] at hlength
    have hlength : items.length = 0 := hlength
    omega
  rw [← hitems]
  refine hsound.tryGetItem ?_
  rw [hcache]
  exact hx

/-- A cache of two slots: a lookup of index 1 in the middle of the put of index 2, and one
of index 0 that this put overtakes. -/
def overtakenTurns : List (CacheTurn Bool Nat) :=
  [.put 11, .write, .write, .get false 0, .read false, .read false, .put 12, .get true 1, .read true, .write,
    .read true, .write, .read true, .read false]

theorem lookup_returns_put_overtakenTurns :
    let m := (CacheMachine.afterFirst (fun _ => 0) 10 : CacheMachine Bool Nat 1).run overtakenTurns
    m.lookups.map (fun l => (l.itemIndex, l.result)) = [(1, .ok 11), (0, .error .concurrentWrite)] ∧
    ∀ l ∈ m.lookups, ∀ x, l.result = .ok x → m.items[l.itemIndex.toNat]? = some x := by
  refine ⟨by decide +kernel, CacheMachine.lookup_returns_put _ _ _ (by decide +kernel)⟩

end HftPipeline
