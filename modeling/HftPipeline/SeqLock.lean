import HftPipeline.Lib.VersionedCell

/-!
# The sequence lock

`SeqLock` and `SeqLockReader`, and a machine whose steps are the single loads and stores of
one writer and any number of readers. The lock is one versioned cell whose version is the
generation word, which starts out locked and wraps to zero at the first write.
-/
namespace HftPipeline

open VersionedCell

structure SeqLock (T : Type) where
  generation : UInt64
  data : T

namespace SeqLock

variable {T : Type}

/-- `LOCKED`. -/
def locked : UInt64 := 0xFFFFFFFFFFFFFFFF

/-- The word is locked at first; `memory` is what `data_` holds. -/
def new (memory : T) : SeqLock T := ⟨locked, memory⟩

/-- Where the writer stands in `write`, after the load of `previous_generation`. -/
inductive WriterPc (T : Type) where
  | idle
  | locking (data : T) (previousGeneration : UInt64)
  | storing (data : T) (previousGeneration : UInt64)
  | releasing (data : T) (previousGeneration : UInt64)
  deriving DecidableEq

/-- `try_read`, `wait_read` (also as `read_latest` of a reader) and `wait_read_next`. -/
inductive Method where
  | tryRead | waitRead | waitReadNext
  deriving DecidableEq, Repr

/-- Where a reader stands: in the loop of `wait_read_next`, or in an attempt to read. -/
inductive ReaderPc (T : Type) where
  | idle
  | polling
  | sampling (method : Method)
  | loading (method : Method) (firstGeneration : UInt64)
  | checking (method : Method) (firstGeneration : UInt64) (data : T)
  deriving DecidableEq

/-- `SeqLockReader`, and where its thread stands. -/
structure Reader (T : Type) where
  pc : ReaderPc T
  lastGenerationSeen : UInt64

def Reader.new : Reader T := ⟨.idle, 0⟩

def Reader.at (reader : Reader T) (pc : ReaderPc T) : Reader T := { reader with pc := pc }

/-- What a call returned, if it did. -/
abbrev Returned (T : Type) := Option (Method × Option T)

/-- After a failed attempt `try_read` returns and the other methods try again. -/
def Reader.fail (reader : Reader T) : Method → Reader T × Returned T
  | .tryRead => (reader.at .idle, some (.tryRead, none))
  | method => (reader.at (.sampling method), none)

/-- `generation_tracker` is `last_generation_seen_` in `wait_read_next` alone. -/
def Reader.succeed (reader : Reader T) (method : Method) (secondGeneration : UInt64) (data : T) :
    Reader T × Returned T :=
  let tracker := if method = .waitReadNext then secondGeneration else reader.lastGenerationSeen
  (⟨.idle, tracker⟩, some (method, some data))

/-- The first step of a call. -/
def Reader.enter (reader : Reader T) : Method → Reader T
  | .waitReadNext => reader.at .polling
  | method => reader.at (.sampling method)

/-- The next load of a call. -/
def readerStep (s : SeqLock T) (reader : Reader T) : Reader T × Returned T :=
  match reader.pc with
  | .idle => (reader, none)
  | .polling =>
    if s.generation = reader.lastGenerationSeen then (reader, none)
    else (reader.at (.sampling .waitReadNext), none)
  | .sampling method =>
    if s.generation = locked then reader.fail method
    else (reader.at (.loading method s.generation), none)
  | .loading method firstGeneration => (reader.at (.checking method firstGeneration s.data), none)
  | .checking method firstGeneration data =>
    if s.generation ≠ firstGeneration then reader.fail method
    else reader.succeed method s.generation data

/-- The loops of the waiting methods end when a stop is requested. -/
def Reader.stop (reader : Reader T) : Reader T × Returned T :=
  match reader.pc with
  | .polling => (reader.at .idle, some (.waitReadNext, none))
  | .sampling .tryRead => (reader, none)
  | .sampling method => (reader.at .idle, some (method, none))
  | _ => (reader, none)

end SeqLock

open SeqLock

/-- A call that has returned, and how many writes had completed when it did. -/
structure SeqLockReturn (R T : Type) where
  reader : R
  method : Method
  result : Option T
  completed : Nat

/-- The lock, its writer and readers, the arguments of the writes begun so far, how many of
these have completed, and the calls that have returned. -/
structure SeqLockMachine (R T : Type) where
  lock : SeqLock T
  writer : WriterPc T
  readers : R → Reader T
  writes : List T
  completed : Nat
  returns : List (SeqLockReturn R T)

/-- The writer enters `write`, the writer goes on, a reader enters a method, a reader goes
on, or a reader sees that a stop was requested. -/
inductive SeqLockTurn (R T : Type) where
  | write (data : T)
  | writer
  | call (r : R) (method : Method)
  | reader (r : R)
  | stop (r : R)

namespace SeqLockMachine

variable {R T : Type} [DecidableEq R]

def init (memory : T) : SeqLockMachine R T := ⟨.new memory, .idle, fun _ => .new, [], 0, []⟩

def write (m : SeqLockMachine R T) (data : T) : SeqLockMachine R T :=
  match m.writer with
  | .idle => { m with writer := .locking data m.lock.generation, writes := m.writes ++ [data] }
  | _ => m

def writerStep (m : SeqLockMachine R T) : SeqLockMachine R T :=
  match m.writer with
  | .idle => m
  | .locking data previousGeneration =>
    { m with lock := { m.lock with generation := locked }, writer := .storing data previousGeneration }
  | .storing data previousGeneration =>
    { m with lock := { m.lock with data := data }, writer := .releasing data previousGeneration }
  | .releasing _ previousGeneration =>
    { m with
      lock := { m.lock with generation := previousGeneration + 1 }
      writer := .idle
      completed := m.completed + 1 }

/-- A reader moves on, and may return. -/
def move (m : SeqLockMachine R T) (r : R) (next : Reader T × Returned T) : SeqLockMachine R T :=
  { m with
    readers := Function.update m.readers r next.1
    returns := m.returns ++
      (next.2.map fun returned => ⟨r, returned.1, returned.2, m.completed⟩).toList }

def step (m : SeqLockMachine R T) : SeqLockTurn R T → SeqLockMachine R T
  | .write data => m.write data
  | .writer => m.writerStep
  | .call r method =>
    match (m.readers r).pc with
    | .idle => m.move r ((m.readers r).enter method, none)
    | _ => m
  | .reader r => m.move r (readerStep m.lock (m.readers r))
  | .stop r => m.move r (m.readers r).stop

def run (m : SeqLockMachine R T) (turns : List (SeqLockTurn R T)) : SeqLockMachine R T :=
  turns.foldl step m

/-- The numbers of the writes whose values a reader got from `wait_read_next`, in the order
of its calls. -/
def obtained (m : SeqLockMachine R T) (r : R) : List Nat :=
  (m.returns.filter fun ret =>
    ret.reader = r ∧ ret.method = .waitReadNext ∧ ret.result.isSome).map (·.completed)

end SeqLockMachine

/-! ## The generation word -/

namespace SeqLock

variable {T : Type}

/-- The word after a number of writes. -/
def generationAfter (completed : Nat) : UInt64 := UInt64.ofNat completed - 1

theorem generationAfter_zero : generationAfter 0 = locked := by decide

theorem generationAfter_add_one (completed : Nat) :
    generationAfter completed + 1 = generationAfter (completed + 1) := by
  rw [generationAfter, generationAfter, UInt64.ofNat_add, UInt64.sub_add_cancel]
  exact (UInt64.add_sub_cancel _ 1).symm

theorem generationAfter_succ_toNat {k : Nat} (h : k < 2 ^ 64) : (generationAfter (k + 1)).toNat = k := by
  rw [← generationAfter_add_one, generationAfter, UInt64.sub_add_cancel]
  exact UInt64.toNat_ofNat_of_lt h

/-- The lock as a versioned cell. -/
def cell (s : SeqLock T) : Cell T where
  version := if s.generation = locked then none else some s.generation.toNat
  data := s.data

theorem cell_version {s : SeqLock T} (h : s.generation ≠ locked) :
    s.cell.version = some s.generation.toNat := if_neg h

theorem cell_version_locked {s : SeqLock T} (h : s.generation = locked) : s.cell.version = none := if_pos h

/-- The version is the number of the last write that has completed, from zero. -/
theorem cell_version_after {s : SeqLock T} {completed v : Nat} (h : s.generation = generationAfter completed)
    (hbound : completed < 2 ^ 64) (hv : s.cell.version = some v) : v + 1 = completed := by
  have hunlocked : s.generation ≠ locked := fun hlocked => by
    rw [cell_version_locked hlocked] at hv
    cases hv
  rw [cell_version hunlocked, h] at hv
  cases completed with
  | zero => exact absurd (h.trans generationAfter_zero) hunlocked
  | succ k =>
    rw [generationAfter_succ_toNat (by omega)] at hv
    rw [Option.some.inj hv]

end SeqLock

/-! ## The invariant -/

namespace SeqLockMachine

variable {R T : Type} [DecidableEq R] {m m' : SeqLockMachine R T} {data : T}

/-- The write in progress is the one after those that have completed. -/
def Pending (m : SeqLockMachine R T) (data : T) : Prop :=
  m.writes[m.completed]? = some data ∧ m.writes.length = m.completed + 1

def WriterSound (m : SeqLockMachine R T) : WriterPc T → Prop
  | .idle => m.lock.generation = generationAfter m.completed ∧ m.writes.length = m.completed
  | .locking data previousGeneration =>
    m.lock.generation = generationAfter m.completed ∧ previousGeneration = generationAfter m.completed ∧
      m.Pending data
  | .storing data previousGeneration =>
    m.lock.generation = locked ∧ previousGeneration = generationAfter m.completed ∧ m.Pending data
  | .releasing data previousGeneration =>
    m.lock.generation = locked ∧ previousGeneration = generationAfter m.completed ∧ m.Pending data ∧
      m.lock.data = data

def Wrote (writes : List T) (v : Nat) (x : T) : Prop := writes[v]? = some x

/-- `before` are the numbers of the writes the reader has got from `wait_read_next`: from the
moment it has seen another generation, it can only sample later ones. -/
def ReaderSound (m : SeqLockMachine R T) (before : List Nat) : ReaderPc T → Prop
  | .idle | .polling => True
  | .sampling method => method = .waitReadNext →
    ∀ n ∈ before, ∀ v, m.lock.cell.version = some v → n ≤ v
  | .loading method firstGeneration =>
    firstGeneration.toNat < m.completed ∧ (method = .waitReadNext → ∀ n ∈ before, n ≤ firstGeneration.toNat)
  | .checking method firstGeneration data =>
    Holds (Wrote m.writes) m.completed m.lock.cell firstGeneration.toNat data ∧
      (method = .waitReadNext → ∀ n ∈ before, n ≤ firstGeneration.toNat)

/-- The value is the argument of the last of the first `completed` writes. -/
def Latest (writes : List T) (completed : Nat) (x : T) : Prop :=
  ∃ k, completed = k + 1 ∧ writes[k]? = some x

structure Sound (m : SeqLockMachine R T) : Prop where
  writer : m.WriterSound m.writer
  cell : Shows (Wrote m.writes) m.completed m.lock.cell
  readers : ∀ r, m.ReaderSound (m.obtained r) (m.readers r).pc
  seen : ∀ r, ∀ n ∈ m.obtained r,
    n ≤ (m.readers r).lastGenerationSeen.toNat + 1 ∧ (m.readers r).lastGenerationSeen.toNat < m.completed
  increasing : ∀ r, (m.obtained r).Pairwise (· < ·)
  returns : ∀ ret ∈ m.returns, ∀ x, ret.result = some x → Latest m.writes ret.completed x

theorem sound_init (memory : T) : (init memory : SeqLockMachine R T).Sound where
  writer := ⟨generationAfter_zero.symm, rfl⟩
  cell := Shows.of_locked (cell_version_locked rfl)
  readers _ := trivial
  seen := by simp [obtained, init]
  increasing := by simp [obtained, init]
  returns := by simp [init]

/-! ## The steps of the writer -/

/-- Writes only go forward: no version comes back. -/
structure Advances (m m' : SeqLockMachine R T) : Prop where
  completed : m.completed ≤ m'.completed
  writes : m.writes <+: m'.writes
  version : m'.lock.cell.version = m.lock.cell.version ∨
    ∀ w, m'.lock.cell.version = some w → m.completed ≤ w
  readers : m'.readers = m.readers
  returns : m'.returns = m.returns

theorem Wrote.mono {writes writes' : List T} (h : writes <+: writes') {v : Nat} {x : T}
    (hx : Wrote writes v x) : Wrote writes' v x := getElem?_of_prefix h hx

omit [DecidableEq R] in
theorem ReaderSound.advance (h : m.Advances m') {before : List Nat} (hbefore : ∀ n ∈ before, n ≤ m.completed)
    {pc : ReaderPc T} (hpc : m.ReaderSound before pc) : m'.ReaderSound before pc := by
  have hle := h.completed
  cases pc with
  | idle => trivial
  | polling => trivial
  | sampling method =>
    intro hmethod n hn v hv
    rcases h.version with hsame | hfresh
    · exact hpc hmethod n hn v (hsame ▸ hv)
    · exact Nat.le_trans (hbefore n hn) (hfresh v hv)
  | loading method firstGeneration => exact ⟨Nat.lt_of_lt_of_le hpc.1 hle, hpc.2⟩
  | checking method firstGeneration data =>
    obtain ⟨hholds, hlater⟩ := hpc
    have hholds := hholds.mono fun v x => Wrote.mono h.writes
    refine ⟨?_, hlater⟩
    rcases h.version with hsame | hfresh
    · exact hholds.of_version_eq hle hsame
    · exact hholds.of_fresh hle hfresh

theorem Sound.obtained_le (h : m.Sound) (r : R) : ∀ n ∈ m.obtained r, n ≤ m.completed := by
  intro n hn
  obtain ⟨hle, hlt⟩ := h.seen r n hn
  omega

theorem Sound.advance (h : m.Sound) (hadvances : m.Advances m') (hwriter : m'.WriterSound m'.writer)
    (hcell : Shows (Wrote m'.writes) m'.completed m'.lock.cell) : m'.Sound := by
  have hobtained : ∀ r, m'.obtained r = m.obtained r := fun r => by rw [obtained, obtained, hadvances.returns]
  have hle := hadvances.completed
  refine ⟨hwriter, hcell, ?_, ?_, ?_, ?_⟩
  · intro r
    rw [hobtained, hadvances.readers]
    exact (h.readers r).advance hadvances (h.obtained_le r)
  · intro r n hn
    rw [hobtained] at hn
    rw [hadvances.readers]
    obtain ⟨hseen, hlt⟩ := h.seen r n hn
    exact ⟨hseen, Nat.lt_of_lt_of_le hlt hle⟩
  · intro r
    rw [hobtained]
    exact h.increasing r
  · intro ret hret x hx
    rw [hadvances.returns] at hret
    obtain ⟨k, hk, hwrote⟩ := h.returns ret hret x hx
    exact ⟨k, hk, getElem?_of_prefix hadvances.writes hwrote⟩

section

omit [DecidableEq R]

/-- The word follows the writes, however many there are. -/
theorem WriterSound.write (h : m.WriterSound m.writer) (data : T) :
    (m.write data).WriterSound (m.write data).writer := by
  cases hpc : m.writer with
  | idle =>
    rw [hpc] at h
    obtain ⟨hgeneration, hlength⟩ := h
    simp only [SeqLockMachine.write, hpc]
    refine ⟨hgeneration, hgeneration, ?_, ?_⟩
    · show (m.writes ++ [data])[m.completed]? = some data
      rw [← hlength, List.getElem?_concat_length]
    · show (m.writes ++ [data]).length = m.completed + 1
      rw [List.length_append, hlength, List.length_singleton]
  | locking _ _ | storing _ _ | releasing _ _ =>
    simp only [SeqLockMachine.write, hpc]
    rw [hpc] at h
    exact h

theorem WriterSound.writerStep (h : m.WriterSound m.writer) : m.writerStep.WriterSound m.writerStep.writer := by
  cases hpc : m.writer with
  | idle =>
    simp only [SeqLockMachine.writerStep, hpc]
    rw [hpc] at h
    exact h
  | locking data previousGeneration =>
    simp only [SeqLockMachine.writerStep, hpc]
    rw [hpc] at h
    exact ⟨rfl, h.2⟩
  | storing data previousGeneration =>
    simp only [SeqLockMachine.writerStep, hpc]
    rw [hpc] at h
    obtain ⟨hlocked, hprevious, hpending⟩ := h
    exact ⟨hlocked, hprevious, hpending, rfl⟩
  | releasing data previousGeneration =>
    simp only [SeqLockMachine.writerStep, hpc]
    rw [hpc] at h
    obtain ⟨-, hprevious, ⟨-, hlength⟩, -⟩ := h
    refine ⟨?_, hlength⟩
    show previousGeneration + 1 = generationAfter (m.completed + 1)
    rw [hprevious, generationAfter_add_one]

end

theorem Sound.write (h : m.Sound) (data : T) : (m.write data).Sound := by
  have hwriter := WriterSound.write h.writer data
  rw [SeqLockMachine.write] at hwriter ⊢
  split
  · rename_i hidle
    rw [hidle] at hwriter
    have hwrites : m.writes <+: m.writes ++ [data] := List.prefix_append _ _
    exact h.advance ⟨Nat.le_refl _, hwrites, Or.inl rfl, rfl, rfl⟩ hwriter
      (h.cell.mono fun v x => Wrote.mono hwrites)
  · exact h

theorem Sound.release (h : m.Sound) (hbound : m.writes.length < 2 ^ 64 - 1) {previousGeneration : UInt64}
    (hpc : m.writer = .releasing data previousGeneration) : m.writerStep.Sound := by
  have hafter := WriterSound.writerStep h.writer
  have hwriter := h.writer
  rw [hpc] at hwriter
  obtain ⟨-, hprevious, ⟨hwrote, hlength⟩, hdata⟩ := hwriter
  have htoNat : (previousGeneration + 1).toNat = m.completed := by
    rw [hprevious, generationAfter_add_one, generationAfter_succ_toNat (by omega)]
  have hunlocked : previousGeneration + 1 ≠ locked := by
    intro hlocked
    have hmax : m.completed = 2 ^ 64 - 1 := by rw [← htoNat, hlocked]; rfl
    omega
  have hversion : (SeqLock.mk (previousGeneration + 1) m.lock.data).cell.version = some m.completed := by
    rw [cell_version hunlocked, htoNat]
  simp only [SeqLockMachine.writerStep, hpc] at hafter ⊢
  refine h.advance ⟨Nat.le_succ _, List.prefix_refl _, Or.inr ?_, rfl, rfl⟩ hafter ?_
  · intro w hw
    rw [hversion] at hw
    cases hw
    exact Nat.le_refl _
  · refine Shows.release ?_ hversion
    show m.writes[m.completed]? = some m.lock.data
    rw [hdata]
    exact hwrote

theorem Sound.writerStep (h : m.Sound) (hbound : m.writes.length < 2 ^ 64 - 1) : m.writerStep.Sound := by
  have hafter := WriterSound.writerStep h.writer
  cases hpc : m.writer with
  | idle =>
    simp only [SeqLockMachine.writerStep, hpc]
    exact h
  | locking data previousGeneration =>
    have hlocked : (SeqLock.mk locked m.lock.data).cell.version = none := cell_version_locked rfl
    simp only [SeqLockMachine.writerStep, hpc] at hafter ⊢
    refine h.advance ⟨Nat.le_refl _, List.prefix_refl _, Or.inr ?_, rfl, rfl⟩ hafter (Shows.of_locked hlocked)
    intro w hw
    rw [hlocked] at hw
    cases hw
  | storing data previousGeneration =>
    simp only [SeqLockMachine.writerStep, hpc] at hafter ⊢
    exact h.advance ⟨Nat.le_refl _, List.prefix_refl _, Or.inl rfl, rfl, rfl⟩ hafter
      (Shows.of_locked (cell_version_locked hafter.1))
  | releasing data previousGeneration => exact h.release hbound hpc

/-! ## The steps of a reader -/

theorem Sound.completed_le (h : m.Sound) : m.completed ≤ m.writes.length := by
  have hwriter := h.writer
  cases hpc : m.writer with
  | idle =>
    rw [hpc] at hwriter
    exact Nat.le_of_eq hwriter.2.symm
  | locking data previousGeneration | storing data previousGeneration =>
    rw [hpc] at hwriter
    have := hwriter.2.2.2
    omega
  | releasing data previousGeneration =>
    rw [hpc] at hwriter
    have := hwriter.2.2.1.2
    omega

theorem Sound.current (h : m.Sound) (hbound : m.writes.length < 2 ^ 64 - 1) {v : Nat}
    (hv : m.lock.cell.version = some v) : v + 1 = m.completed := by
  have hle := h.completed_le
  have hwriter := h.writer
  cases hpc : m.writer with
  | idle | locking data previousGeneration =>
    rw [hpc] at hwriter
    exact cell_version_after hwriter.1 (by omega) hv
  | storing data previousGeneration | releasing data previousGeneration =>
    rw [hpc] at hwriter
    rw [cell_version_locked hwriter.1] at hv
    cases hv

theorem obtained_move (m : SeqLockMachine R T) (r : R) {next : Reader T × Returned T} {x : T}
    (h : next.2 = some (.waitReadNext, some x)) :
    (m.move r next).obtained r = m.obtained r ++ [m.completed] := by
  simp [obtained, move, h]

theorem obtained_move_of_ne (m : SeqLockMachine R T) {r r' : R} {next : Reader T × Returned T}
    (h : r = r' → ∀ x, next.2 ≠ some (.waitReadNext, some x)) :
    (m.move r next).obtained r' = m.obtained r' := by
  obtain ⟨reader, returned⟩ := next
  rcases returned with - | ⟨method, - | x⟩
  · simp [obtained, move]
  · simp [obtained, move]
  · have hother : ¬(r = r' ∧ method = .waitReadNext) := by
      rintro ⟨hr, rfl⟩
      exact h hr x rfl
    simp [obtained, move, hother]

/-- What a reader may do in one step. -/
structure Allowed (m : SeqLockMachine R T) (r : R) (next : Reader T × Returned T) : Prop where
  pc : m.ReaderSound ((m.move r next).obtained r) next.1.pc
  seen : ∀ n ∈ (m.move r next).obtained r,
    n ≤ next.1.lastGenerationSeen.toNat + 1 ∧ next.1.lastGenerationSeen.toNat < m.completed
  increasing : ((m.move r next).obtained r).Pairwise (· < ·)
  returned : ∀ method x, next.2 = some (method, some x) → Latest m.writes m.completed x

theorem Sound.move (h : m.Sound) {r : R} {next : Reader T × Returned T} (hnext : m.Allowed r next) :
    (m.move r next).Sound := by
  have hother : ∀ r', r' ≠ r → (m.move r next).obtained r' = m.obtained r' := by
    intro r' hr
    exact m.obtained_move_of_ne fun hself => absurd hself.symm hr
  have hreader : ∀ r', r' ≠ r → (m.move r next).readers r' = m.readers r' :=
    fun r' hr => Function.update_of_ne hr _ _
  have hself : (m.move r next).readers r = next.1 := Function.update_self _ _ _
  refine ⟨h.writer, h.cell, ?_, ?_, ?_, ?_⟩
  · intro r'
    by_cases hr : r' = r
    · rw [hr, hself]
      exact hnext.pc
    · rw [hother r' hr, hreader r' hr]
      exact h.readers r'
  · intro r'
    by_cases hr : r' = r
    · rw [hr, hself]
      exact hnext.seen
    · rw [hother r' hr, hreader r' hr]
      exact h.seen r'
  · intro r'
    by_cases hr : r' = r
    · rw [hr]
      exact hnext.increasing
    · rw [hother r' hr]
      exact h.increasing r'
  · intro ret hret x hx
    rcases List.mem_append.mp hret with hold | hnew
    · exact h.returns ret hold x hx
    · obtain ⟨⟨method, result⟩, hreturned, rfl⟩ := Option.map_eq_some_iff.mp (Option.mem_toList.mp hnew)
      exact hnext.returned method x (by rw [hreturned]; exact congrArg _ (congrArg _ hx))

/-- A step that returns no value and leaves the tracker alone. -/
theorem Sound.allowed (h : m.Sound) {r : R} {next : Reader T × Returned T}
    (hseen : next.1.lastGenerationSeen = (m.readers r).lastGenerationSeen)
    (hquiet : ∀ method x, next.2 ≠ some (method, some x))
    (hpc : m.ReaderSound (m.obtained r) next.1.pc) : m.Allowed r next := by
  have hobtained : (m.move r next).obtained r = m.obtained r :=
    m.obtained_move_of_ne fun _ x => hquiet _ x
  refine ⟨by rw [hobtained]; exact hpc, ?_, by rw [hobtained]; exact h.increasing r, ?_⟩
  · rw [hobtained, hseen]
    exact h.seen r
  · intro method x hx
    exact absurd hx (hquiet method x)

theorem Sound.fail (h : m.Sound) {r : R} {method : Method}
    (hlater : method = .waitReadNext → ∀ n ∈ m.obtained r, ∀ v, m.lock.cell.version = some v → n ≤ v) :
    m.Allowed r ((m.readers r).fail method) := by
  cases method with
  | tryRead => exact h.allowed rfl nofun trivial
  | waitRead | waitReadNext => exact h.allowed rfl nofun hlater

/-- Both samples agree: the copy is the latest write, and later than what the reader had. -/
theorem Sound.succeed (h : m.Sound) (hbound : m.writes.length < 2 ^ 64 - 1) {r : R} {method : Method}
    (hpc : m.ReaderSound (m.obtained r) (.checking method m.lock.generation data)) :
    m.Allowed r ((m.readers r).succeed method m.lock.generation data) := by
  have hle := h.completed_le
  obtain ⟨hholds, hlater⟩ := hpc
  have hunlocked : m.lock.generation ≠ locked := by
    intro hlocked
    have hlt := hholds.1
    have hmax : m.lock.generation.toNat = 2 ^ 64 - 1 := by rw [hlocked]; rfl
    omega
  have hversion := cell_version hunlocked
  have hcurrent := h.current hbound hversion
  have hlatest : Latest m.writes m.completed data := ⟨_, hcurrent.symm, hholds.2 hversion⟩
  have hreturned : ∀ method' x, ((m.readers r).succeed method m.lock.generation data).2 =
      some (method', some x) → Latest m.writes m.completed x := by
    intro method' x hx
    cases hx
    exact hlatest
  by_cases hmethod : method = .waitReadNext
  · have hobtained : (m.move r ((m.readers r).succeed method m.lock.generation data)).obtained r =
        m.obtained r ++ [m.completed] := by
      rw [hmethod]
      exact m.obtained_move r rfl
    have htracker : ((m.readers r).succeed method m.lock.generation data).1.lastGenerationSeen =
        m.lock.generation := if_pos hmethod
    refine ⟨trivial, ?_, ?_, hreturned⟩
    · rw [hobtained, htracker]
      intro n hn
      rcases List.mem_append.mp hn with hold | hnew
      · have := hlater hmethod n hold
        omega
      · rw [List.mem_singleton.mp hnew]
        omega
    · rw [hobtained, List.pairwise_append]
      refine ⟨h.increasing r, List.pairwise_singleton _ _, ?_⟩
      intro n hn n' hn'
      rw [List.mem_singleton.mp hn']
      have := hlater hmethod n hn
      omega
  · have hobtained : (m.move r ((m.readers r).succeed method m.lock.generation data)).obtained r =
        m.obtained r := by
      refine m.obtained_move_of_ne fun _ x hx => ?_
      cases hx
      exact hmethod rfl
    have htracker : ((m.readers r).succeed method m.lock.generation data).1.lastGenerationSeen =
        (m.readers r).lastGenerationSeen := if_neg hmethod
    refine ⟨trivial, ?_, ?_, hreturned⟩
    · rw [hobtained, htracker]
      exact h.seen r
    · rw [hobtained]
      exact h.increasing r

/-- The generation is not the one the reader saw last: it is locked or a later one. -/
theorem Sound.poll (h : m.Sound) (hbound : m.writes.length < 2 ^ 64 - 1) {r : R}
    (hother : m.lock.generation ≠ (m.readers r).lastGenerationSeen) :
    ∀ n ∈ m.obtained r, ∀ v, m.lock.cell.version = some v → n ≤ v := by
  intro n hn v hv
  obtain ⟨hle, hlt⟩ := h.seen r n hn
  have hcurrent := h.current hbound hv
  have hunlocked : m.lock.generation ≠ locked := fun hlocked => by
    rw [cell_version_locked hlocked] at hv
    cases hv
  rw [cell_version hunlocked] at hv
  have hgeneration := Option.some.inj hv
  have hne : (m.readers r).lastGenerationSeen.toNat ≠ v := by
    rw [← hgeneration]
    exact fun heq => hother (UInt64.toNat_inj.mp heq.symm)
  omega

theorem Sound.reader (h : m.Sound) (hbound : m.writes.length < 2 ^ 64 - 1) (r : R) :
    m.Allowed r (readerStep m.lock (m.readers r)) := by
  have hreader := h.readers r
  rw [readerStep]
  split
  · rename_i hpc
    exact h.allowed rfl nofun hreader
  · rename_i hpc
    split
    · exact h.allowed rfl nofun hreader
    · rename_i hother
      exact h.allowed rfl nofun fun _ => h.poll hbound hother
  · rename_i method hpc
    rw [hpc] at hreader
    split
    · exact h.fail hreader
    · rename_i hunlocked
      have hversion := cell_version hunlocked
      exact h.allowed rfl nofun
        ⟨(h.cell _ hversion).1, fun hmethod n hn => hreader hmethod n hn _ hversion⟩
  · rename_i method firstGeneration hpc
    rw [hpc] at hreader
    exact h.allowed rfl nofun ⟨h.cell.copy hreader.1, hreader.2⟩
  · rename_i method firstGeneration data hpc
    rw [hpc] at hreader
    split
    · refine h.fail fun hmethod n hn v hv => ?_
      have hfirst := hreader.2 hmethod n hn
      have hlt := hreader.1.1
      have := h.current hbound hv
      omega
    · rename_i hsame
      have hgeneration := not_not.mp hsame
      rw [← hgeneration] at hreader
      exact h.succeed hbound hreader

theorem Sound.stop (h : m.Sound) (r : R) : m.Allowed r (m.readers r).stop := by
  have hreader := h.readers r
  rw [Reader.stop]
  split
  · exact h.allowed rfl nofun trivial
  · exact h.allowed rfl nofun hreader
  · exact h.allowed rfl nofun trivial
  · exact h.allowed rfl nofun hreader

/-! ## Whole runs -/

theorem Sound.step (h : m.Sound) (hbound : m.writes.length < 2 ^ 64 - 1) (t : SeqLockTurn R T) :
    (m.step t).Sound := by
  cases t with
  | write data => exact h.write data
  | writer => exact h.writerStep hbound
  | call r method =>
    rw [SeqLockMachine.step]
    split
    · refine h.move (h.allowed ?_ nofun ?_)
      · cases method <;> rfl
      · cases method with
        | tryRead | waitRead => exact fun hmethod => by cases hmethod
        | waitReadNext => trivial
    · exact h
  | reader r => exact h.move (h.reader hbound r)
  | stop r => exact h.move (h.stop r)

theorem step_writes (m : SeqLockMachine R T) (t : SeqLockTurn R T) : m.writes <+: (m.step t).writes := by
  cases t with
  | write data =>
    rw [SeqLockMachine.step, SeqLockMachine.write]
    split
    · exact List.prefix_append _ _
    · exact List.prefix_refl _
  | writer =>
    rw [SeqLockMachine.step, SeqLockMachine.writerStep]
    split <;> exact List.prefix_refl _
  | call r method =>
    rw [SeqLockMachine.step]
    split <;> exact List.prefix_refl _
  | reader r => exact List.prefix_refl _
  | stop r => exact List.prefix_refl _

theorem run_writes (m : SeqLockMachine R T) (turns : List (SeqLockTurn R T)) :
    m.writes <+: (m.run turns).writes := by
  induction turns generalizing m with
  | nil => exact List.prefix_refl _
  | cons t turns ih => exact (step_writes m t).trans (ih (m.step t))

theorem Sound.run (h : m.Sound) (turns : List (SeqLockTurn R T))
    (hbound : (m.run turns).writes.length < 2 ^ 64 - 1) : (m.run turns).Sound := by
  induction turns generalizing m with
  | nil => exact h
  | cons t turns ih =>
    have hlength := (run_writes m (t :: turns)).length_le
    exact ih (h.step (by omega) t) hbound

/-- In every interleaving with fewer than `2 ^ 64 - 1` writes, every value returned is the
argument of the latest write that had completed when the call took its last step, and the
values a reader gets from `wait_read_next` belong to strictly later writes each time. -/
theorem read_returns_latest_write (memory : T) (turns : List (SeqLockTurn R T))
    (hbound : ((init memory : SeqLockMachine R T).run turns).writes.length < 2 ^ 64 - 1) :
    (∀ ret ∈ ((init memory : SeqLockMachine R T).run turns).returns, ∀ x, ret.result = some x →
      Latest ((init memory : SeqLockMachine R T).run turns).writes ret.completed x) ∧
    ∀ r, (((init memory : SeqLockMachine R T).run turns).obtained r).Pairwise (· < ·) :=
  have h := (sound_init memory).run turns hbound
  ⟨h.returns, h.increasing⟩

end SeqLockMachine

/-- A reader waits through the first two writes, one of which overlaps its attempt, and then
for the third. -/
def overlappedTurns : List (SeqLockTurn Unit Nat) :=
  [.call () .waitReadNext, .reader (), .write 10, .writer, .writer, .writer, .reader (), .write 11, .writer,
    .reader (), .writer, .writer, .reader (), .reader (), .reader (), .reader (), .call () .waitReadNext,
    .reader (), .write 12, .writer, .writer, .writer, .reader (), .reader (), .reader (), .reader ()]

theorem read_returns_latest_write_overlappedTurns :
    let m := (SeqLockMachine.init 0 : SeqLockMachine Unit Nat).run overlappedTurns
    m.returns.map (fun ret => (ret.result, ret.completed)) = [(some 11, 2), (some 12, 3)] ∧
    (∀ ret ∈ m.returns, ∀ x, ret.result = some x → SeqLockMachine.Latest m.writes ret.completed x) ∧
    ∀ r, (m.obtained r).Pairwise (· < ·) :=
  ⟨by decide +kernel, SeqLockMachine.read_returns_latest_write 0 overlappedTurns (by decide +kernel)⟩

end HftPipeline
