import HftPipeline.SeqLock

/-!
# Waiting for the next write

A reader in the loop of `wait_read_next` compares the generation word with the one it saw
last, which is zero before it has seen any; the word is zero after the first write. While no
write is in progress, a pass of the loop returns the latest write exactly if the two differ
and the word is not `LOCKED`.
-/
namespace HftPipeline

open VersionedCell SeqLock

namespace SeqLockMachine

variable {R T : Type} [DecidableEq R] {m : SeqLockMachine R T} {r : R}

/-- One pass of the loop: the comparison, and an attempt to read. -/
def pass (m : SeqLockMachine R T) (r : R) : SeqLockMachine R T :=
  m.run [.reader r, .reader r, .reader r, .reader r]

/-- The next pass returns the latest write. -/
def ReturnsLatest (m : SeqLockMachine R T) (r : R) : Prop :=
  ∃ x, Latest m.writes m.completed x ∧
    (m.pass r).returns = m.returns ++ [⟨r, .waitReadNext, some x, m.completed⟩]

/-! ## What the lock holds, however often the word has wrapped -/

/-- The word counts the writes, and until the next one is stored the data is the last. -/
structure Current (m : SeqLockMachine R T) : Prop where
  writer : m.WriterSound m.writer
  latest : (∀ data previousGeneration, m.writer ≠ .releasing data previousGeneration) → m.completed ≠ 0 →
    Latest m.writes m.completed m.lock.data

omit [DecidableEq R] in
theorem current_init (memory : T) : (init memory : SeqLockMachine R T).Current where
  writer := ⟨generationAfter_zero.symm, rfl⟩
  latest _ hwritten := absurd rfl hwritten

theorem Latest.mono {writes writes' : List T} {completed : Nat} {x : T} (h : Latest writes completed x)
    (hmore : writes <+: writes') : Latest writes' completed x := by
  obtain ⟨k, hk, hx⟩ := h
  exact ⟨k, hk, getElem?_of_prefix hmore hx⟩

section

omit [DecidableEq R]

theorem Current.write (h : m.Current) (data : T) : (m.write data).Current := by
  refine ⟨WriterSound.write h.writer data, ?_⟩
  rw [SeqLockMachine.write]
  split
  · rename_i hidle
    intro _ hwritten
    exact (h.latest (by simp [hidle]) hwritten).mono (List.prefix_append _ _)
  · exact h.latest

theorem Current.writerStep (h : m.Current) : m.writerStep.Current := by
  refine ⟨WriterSound.writerStep h.writer, ?_⟩
  cases hpc : m.writer with
  | idle =>
    simp only [SeqLockMachine.writerStep, hpc]
    exact fun _ => h.latest (by simp [hpc])
  | locking data previousGeneration =>
    simp only [SeqLockMachine.writerStep, hpc]
    exact fun _ => h.latest (by simp [hpc])
  | storing data previousGeneration =>
    simp only [SeqLockMachine.writerStep, hpc]
    exact fun hreleasing => absurd rfl (hreleasing _ _)
  | releasing data previousGeneration =>
    have hwriter := h.writer
    rw [hpc] at hwriter
    obtain ⟨-, -, ⟨hwrote, -⟩, hdata⟩ := hwriter
    simp only [SeqLockMachine.writerStep, hpc]
    exact fun _ _ => ⟨m.completed, rfl, by rw [hdata]; exact hwrote⟩

end

theorem Current.move (h : m.Current) (next : Reader T × Returned T) : (m.move r next).Current :=
  ⟨h.writer, h.latest⟩

theorem Current.step (h : m.Current) (t : SeqLockTurn R T) : (m.step t).Current := by
  cases t with
  | write data => exact h.write data
  | writer => exact h.writerStep
  | call r method =>
    rw [SeqLockMachine.step]
    split
    · exact h.move _
    · exact h
  | reader r => exact h.move _
  | stop r => exact h.move _

theorem Current.run (h : m.Current) (turns : List (SeqLockTurn R T)) : (m.run turns).Current := by
  induction turns generalizing m with
  | nil => exact h
  | cons t turns ih => exact ih (h.step t)

/-! ## A pass -/

theorem pass_returns_of_same (hpolling : (m.readers r).pc = .polling)
    (hsame : m.lock.generation = (m.readers r).lastGenerationSeen) : (m.pass r).returns = m.returns := by
  simp [pass, run, step, move, readerStep, hpolling, hsame]

theorem pass_returns_of_locked (hpolling : (m.readers r).pc = .polling)
    (hlocked : m.lock.generation = locked) : (m.pass r).returns = m.returns := by
  by_cases hsame : m.lock.generation = (m.readers r).lastGenerationSeen
  · exact pass_returns_of_same hpolling hsame
  · rw [hlocked] at hsame
    simp [pass, run, step, move, readerStep, hpolling, hsame, hlocked, Reader.at, Reader.fail]

/-- The comparison succeeds, and so does the attempt. -/
theorem pass_returns_of_other (hpolling : (m.readers r).pc = .polling) (hunlocked : m.lock.generation ≠ locked)
    (hother : m.lock.generation ≠ (m.readers r).lastGenerationSeen) :
    (m.pass r).returns = m.returns ++ [⟨r, .waitReadNext, some m.lock.data, m.completed⟩] := by
  simp [pass, run, step, move, readerStep, hpolling, hunlocked, hother, Reader.at, Reader.succeed]

theorem Current.returnsLatest_iff (h : m.Current) (hidle : m.writer = .idle)
    (hpolling : (m.readers r).pc = .polling) :
    m.ReturnsLatest r ↔
      m.lock.generation ≠ locked ∧ m.lock.generation ≠ (m.readers r).lastGenerationSeen := by
  constructor
  · rintro ⟨x, -, hreturns⟩
    have hmore : m.returns ++ [⟨r, .waitReadNext, some x, m.completed⟩] ≠ m.returns := by simp
    constructor
    · intro hlocked
      exact hmore (hreturns.symm.trans (pass_returns_of_locked hpolling hlocked))
    · intro hsame
      exact hmore (hreturns.symm.trans (pass_returns_of_same hpolling hsame))
  · rintro ⟨hunlocked, hother⟩
    have hwriter := h.writer
    rw [hidle] at hwriter
    have hwritten : m.completed ≠ 0 := by
      intro hzero
      apply hunlocked
      rw [hwriter.1, hzero, generationAfter_zero]
    exact ⟨_, h.latest (by simp [hidle]) hwritten, pass_returns_of_other hpolling hunlocked hother⟩

/-! ## Before the word wraps again -/

/-- The reader's word is zero, or it is that of a write whose value it has got. -/
def Tracks (m : SeqLockMachine R T) (r : R) : Prop :=
  (m.obtained r = [] ∧ (m.readers r).lastGenerationSeen = 0) ∨
    (m.readers r).lastGenerationSeen.toNat + 1 ∈ m.obtained r

theorem Tracks.of_same {m' : SeqLockMachine R T} (h : m.Tracks r) (hobtained : m'.obtained r = m.obtained r)
    (hseen : (m'.readers r).lastGenerationSeen = (m.readers r).lastGenerationSeen) : m'.Tracks r := by
  rw [Tracks, hobtained, hseen]
  exact h

/-- A step of another reader, or one of this reader that returns nothing new. -/
theorem Tracks.move (h : m.Tracks r) {r' : R} {next : Reader T × Returned T}
    (hseen : r' = r → next.1.lastGenerationSeen = (m.readers r).lastGenerationSeen)
    (hquiet : r' = r → ∀ x, next.2 ≠ some (.waitReadNext, some x)) : (m.move r' next).Tracks r := by
  refine h.of_same (m.obtained_move_of_ne hquiet) ?_
  show (Function.update m.readers r' next.1 r).lastGenerationSeen = _
  by_cases hr : r' = r
  · subst hr
    rw [Function.update_self]
    exact hseen rfl
  · rw [Function.update_of_ne (Ne.symm hr)]

theorem fail_lastGenerationSeen (reader : Reader T) (method : Method) :
    (reader.fail method).1.lastGenerationSeen = reader.lastGenerationSeen := by
  cases method <;> rfl

theorem fail_quiet (reader : Reader T) (method : Method) (x : T) :
    (reader.fail method).2 ≠ some (.waitReadNext, some x) := by
  cases method <;> nofun

theorem stop_lastGenerationSeen (reader : Reader T) :
    reader.stop.1.lastGenerationSeen = reader.lastGenerationSeen := by
  rw [Reader.stop]
  split <;> rfl

theorem stop_quiet (reader : Reader T) (x : T) : reader.stop.2 ≠ some (.waitReadNext, some x) := by
  rw [Reader.stop]
  split <;> rintro ⟨⟩

/-- What the reader gets from `wait_read_next` is the write whose word it keeps. -/
theorem Tracks.reader (h : m.Tracks r) (hsound : m.Sound) (hbound : m.writes.length < 2 ^ 64 - 1) (r' : R) :
    (m.step (.reader r')).Tracks r := by
  have hreader := hsound.readers r'
  rw [SeqLockMachine.step, readerStep]
  split
  · exact h.move (fun hr => by rw [hr]) (by rintro _ _ ⟨⟩)
  · split
    · exact h.move (fun hr => by rw [hr]) (by rintro _ _ ⟨⟩)
    · exact h.move (fun hr => by rw [hr]; rfl) (by rintro _ _ ⟨⟩)
  · rename_i method _
    split
    · exact h.move (fun hr => by rw [fail_lastGenerationSeen, hr]) (fun _ => fail_quiet _ _)
    · exact h.move (fun hr => by rw [hr]; rfl) (by rintro _ _ ⟨⟩)
  · exact h.move (fun hr => by rw [hr]; rfl) (by rintro _ _ ⟨⟩)
  · rename_i method firstGeneration data hpc
    split
    · exact h.move (fun hr => by rw [fail_lastGenerationSeen, hr]) (fun _ => fail_quiet _ _)
    · rename_i hsame
      have hgeneration := not_not.mp hsame
      by_cases hmine : r' = r ∧ method = .waitReadNext
      · obtain ⟨rfl, rfl⟩ := hmine
        rw [hpc] at hreader
        have hlt := hreader.1.1
        have hlength := hsound.completed_le
        have hunlocked : m.lock.generation ≠ locked := by
          intro hlocked
          rw [hgeneration] at hlocked
          have hmax : firstGeneration.toNat = 2 ^ 64 - 1 := by rw [hlocked]; rfl
          omega
        have hcurrent := hsound.current hbound (cell_version hunlocked)
        right
        rw [m.obtained_move r' rfl]
        show (Function.update m.readers r' _ r').lastGenerationSeen.toNat + 1 ∈ _
        rw [Function.update_self, ← hcurrent]
        exact List.mem_append_right _ (List.mem_singleton_self _)
      · refine h.move (fun hr => ?_) (fun hr x hx => ?_)
        · rw [← hr]
          exact if_neg fun hmethod => hmine ⟨hr, hmethod⟩
        · cases hx
          exact hmine ⟨hr, rfl⟩

theorem Tracks.step (h : m.Tracks r) (hsound : m.Sound) (hbound : m.writes.length < 2 ^ 64 - 1)
    (t : SeqLockTurn R T) : (m.step t).Tracks r := by
  cases t with
  | write data =>
    rw [SeqLockMachine.step, SeqLockMachine.write]
    split
    · exact h.of_same rfl rfl
    · exact h
  | writer =>
    rw [SeqLockMachine.step, SeqLockMachine.writerStep]
    split
    · exact h
    · exact h.of_same rfl rfl
    · exact h.of_same rfl rfl
    · exact h.of_same rfl rfl
  | call r' method =>
    rw [SeqLockMachine.step]
    split
    · refine h.move (fun hr => ?_) (by rintro _ _ ⟨⟩)
      rw [hr]
      cases method <;> rfl
    · exact h
  | reader r' => exact h.reader hsound hbound r'
  | stop r' =>
    exact h.move (fun hr => by rw [stop_lastGenerationSeen, hr]) (fun _ => stop_quiet _)

theorem Tracks.run (h : m.Tracks r) (hsound : m.Sound) (turns : List (SeqLockTurn R T))
    (hbound : (m.run turns).writes.length < 2 ^ 64 - 1) : (m.run turns).Tracks r := by
  induction turns generalizing m with
  | nil => exact h
  | cons t turns ih =>
    have hlength := (run_writes m (t :: turns)).length_le
    have hstep : m.writes.length < 2 ^ 64 - 1 := by omega
    exact ih (h.step hsound hstep t) (hsound.step hstep t) hbound

/-- Something newer than all the reader has got, and the words are the same: it is the first
write, and the reader has got nothing. -/
theorem Tracks.same_iff (h : m.Tracks r) (hgeneration : m.lock.generation = generationAfter m.completed)
    (hwritten : 0 < m.completed) (hbound : m.completed < 2 ^ 64 - 1)
    (hnewer : ∀ n ∈ m.obtained r, n < m.completed) :
    m.lock.generation = (m.readers r).lastGenerationSeen ↔ m.completed = 1 ∧ m.obtained r = [] := by
  have htoNat : m.lock.generation.toNat + 1 = m.completed := by
    obtain ⟨k, hk⟩ := Nat.exists_eq_add_of_le hwritten
    rw [hgeneration, hk, Nat.add_comm 1 k, generationAfter_succ_toNat (by omega)]
  rcases h with ⟨hnothing, hzero⟩ | hseen
  · rw [hzero, hnothing, ← UInt64.toNat_inj, UInt64.toNat_zero]
    constructor
    · intro hsame
      exact ⟨by omega, rfl⟩
    · rintro ⟨hone, -⟩
      omega
  · have hlt := hnewer _ hseen
    refine iff_of_false ?_ ?_
    · intro hsame
      rw [hsame] at htoNat
      omega
    · rintro ⟨-, hnothing⟩
      rw [hnothing] at hseen
      cases hseen

/-- In every run, while no write is in progress: the next pass of a reader's loop returns the
latest write exactly if the word is neither `LOCKED` nor the one the reader saw last. Before
the word wraps a second time, and with a write newer than all the reader has got, it does
unless that is the first write and the reader has got nothing. -/
theorem next_read_returns_iff (memory : T) (turns : List (SeqLockTurn R T)) (r : R)
    (hidle : ((init memory : SeqLockMachine R T).run turns).writer = .idle)
    (hpolling : (((init memory : SeqLockMachine R T).run turns).readers r).pc = .polling) :
    (((init memory).run turns).ReturnsLatest r ↔
      ((init memory : SeqLockMachine R T).run turns).lock.generation ≠ locked ∧
      ((init memory : SeqLockMachine R T).run turns).lock.generation ≠
        (((init memory : SeqLockMachine R T).run turns).readers r).lastGenerationSeen) ∧
    (0 < ((init memory : SeqLockMachine R T).run turns).completed →
      ((init memory : SeqLockMachine R T).run turns).completed < 2 ^ 64 - 1 →
      (∀ n ∈ ((init memory : SeqLockMachine R T).run turns).obtained r,
        n < ((init memory : SeqLockMachine R T).run turns).completed) →
      (((init memory).run turns).ReturnsLatest r ↔
        ¬(((init memory : SeqLockMachine R T).run turns).completed = 1 ∧
          ((init memory : SeqLockMachine R T).run turns).obtained r = []))) := by
  have hcurrent := (current_init (R := R) memory).run turns
  have hiff := hcurrent.returnsLatest_iff hidle hpolling
  refine ⟨hiff, fun hwritten hbound hnewer => ?_⟩
  have hwriter := hcurrent.writer
  rw [hidle] at hwriter
  obtain ⟨hgeneration, hlength⟩ := hwriter
  have htracks := Tracks.run (Or.inl ⟨rfl, rfl⟩ : (init memory : SeqLockMachine R T).Tracks r)
    (sound_init memory) turns (by omega)
  have hunlocked : ((init memory : SeqLockMachine R T).run turns).lock.generation ≠ locked := by
    obtain ⟨k, hk⟩ := Nat.exists_eq_add_of_le hwritten
    intro hlocked
    have htoNat : (generationAfter (k + 1)).toNat = k := generationAfter_succ_toNat (by omega)
    rw [hgeneration, hk, Nat.add_comm] at hlocked
    rw [hlocked] at htoNat
    have hmax : (2 : Nat) ^ 64 - 1 = k := htoNat
    omega
  rw [hiff, ← htracks.same_iff hgeneration hwritten hbound hnewer]
  exact and_iff_right hunlocked

end SeqLockMachine

/-- One write, then a reader begins to poll. -/
def firstWriteTurns : List (SeqLockTurn Unit Nat) :=
  [.write 10, .writer, .writer, .writer, .call () .waitReadNext]

/-- The reader of `firstWriteTurns` gets the second write. -/
def secondWriteTurns : List (SeqLockTurn Unit Nat) :=
  firstWriteTurns ++ [.reader (), .write 11, .writer, .writer, .writer]

theorem next_read_returns_iff_secondWriteTurns :
    let m := (SeqLockMachine.init 0 : SeqLockMachine Unit Nat).run secondWriteTurns
    (m.pass ()).returns.map (·.result) = [some 11] ∧
    (m.ReturnsLatest () ↔
      m.lock.generation ≠ locked ∧ m.lock.generation ≠ (m.readers ()).lastGenerationSeen) ∧
    (m.ReturnsLatest () ↔ ¬(m.completed = 1 ∧ m.obtained () = [])) :=
  have h := SeqLockMachine.next_read_returns_iff 0 secondWriteTurns () (by decide) (by decide)
  ⟨by decide, h.1, h.2 (by decide) (by decide) (by decide)⟩

/-- The first write has completed and the reader has got nothing, but it waits. -/
theorem first_write_not_returned :
    let m := (SeqLockMachine.init 0 : SeqLockMachine Unit Nat).run firstWriteTurns
    m.writer = .idle ∧ m.completed = 1 ∧ m.obtained () = [] ∧ (m.readers ()).pc = .polling ∧
    ¬ m.ReturnsLatest () ∧ m.step (.reader ()) = m := by
  refine ⟨by decide, by decide, by decide, by decide, ?_, ?_⟩
  · rintro ⟨x, -, hreturns⟩
    have hpass : (((SeqLockMachine.init 0 : SeqLockMachine Unit Nat).run firstWriteTurns).pass ()).returns = [] := by
      decide
    rw [hpass] at hreturns
    exact absurd hreturns.symm (List.append_ne_nil_of_right_ne_nil _ (List.cons_ne_nil _ _))
  · have hreader : ∀ m : SeqLockMachine Unit Nat, readerStep m.lock (m.readers ()) = (m.readers (), none) →
        m.step (.reader ()) = m := by
      intro m hstep
      rw [SeqLockMachine.step, hstep, SeqLockMachine.move, Function.update_eq_self]
      simp
    exact hreader _ rfl

end HftPipeline
