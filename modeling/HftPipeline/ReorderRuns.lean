import HftPipeline.ReorderBuffer

/-!
# The reorder buffer over a run

What the buffer is for: a cursor and the data that waits at the indices from the cursor on.
Over any sequence of whole calls, whose indices stay clear of `2 ^ 64`, the buffer does what
this partial map does; that its slots are used again every `CAPACITY` indices never shows.
-/
namespace HftPipeline

inductive ReorderCall (T : Type) where
  | write (data : T) (index : Nat)
  | consume
  deriving DecidableEq, Repr

inductive ReorderResult (T : Type) where
  | wrote (status : WriteStatus)
  | consumed (item : Option T)
  deriving DecidableEq, Repr

/-- The calls of a run with their results. -/
abbrev ReorderTrace (T : Type) := List (ReorderCall T × ReorderResult T)

/-- The data and indices of the writes that succeeded. -/
def ReorderTrace.accepted {T : Type} (trace : ReorderTrace T) : List (T × Nat) :=
  trace.filterMap fun
    | (.write data index, .wrote .success) => some (data, index)
    | _ => none

/-- What the reader got. -/
def ReorderTrace.delivered {T : Type} (trace : ReorderTrace T) : List T :=
  trace.filterMap fun
    | (.consume, .consumed item) => item
    | _ => none

namespace ReorderBuffer

variable {T : Type} {bits : Nat}

def call (b : ReorderBuffer T bits) : ReorderCall T → ReorderResult T × ReorderBuffer T bits
  | .write data index => ((.wrote (b.tryWriteTo data index).1), (b.tryWriteTo data index).2)
  | .consume => (.consumed b.tryConsumeNext.1, b.tryConsumeNext.2)

def runCall (run : ReorderBuffer T bits × ReorderTrace T) (c : ReorderCall T) :
    ReorderBuffer T bits × ReorderTrace T :=
  ((run.1.call c).2, run.2 ++ [(c, (run.1.call c).1)])

def run (b : ReorderBuffer T bits) (calls : List (ReorderCall T)) : ReorderBuffer T bits × ReorderTrace T :=
  calls.foldl runCall (b, [])

end ReorderBuffer

/-! ## The partial map -/

/-- The index to be consumed next, and the data that is present. -/
structure Awaited (T : Type) where
  cursor : Nat
  present : Nat → Option T

namespace Awaited

variable {T : Type}

def new (cursor : Nat) : Awaited T := ⟨cursor, fun _ => none⟩

def write (capacity : Nat) (s : Awaited T) (data : T) (index : Nat) : WriteStatus × Awaited T :=
  if index < s.cursor ∨ (s.present index).isSome then (.alreadyWritten, s)
  else if index < s.cursor + (capacity - 1) then
    (.success, { s with present := Function.update s.present index (some data) })
  else if (s.present s.cursor).isSome then (.likelySlowReader, s)
  else (.likelySlowWriter, s)

def consume (s : Awaited T) : Option T × Awaited T :=
  match s.present s.cursor with
  | none => (none, s)
  | some data => (some data, ⟨s.cursor + 1, Function.update s.present s.cursor none⟩)

def call (capacity : Nat) (s : Awaited T) : ReorderCall T → ReorderResult T × Awaited T
  | .write data index => (.wrote (s.write capacity data index).1, (s.write capacity data index).2)
  | .consume => (.consumed s.consume.1, s.consume.2)

def runCall (capacity : Nat) (run : Awaited T × ReorderTrace T) (c : ReorderCall T) :
    Awaited T × ReorderTrace T :=
  ((run.1.call capacity c).2, run.2 ++ [(c, (run.1.call capacity c).1)])

def run (capacity : Nat) (s : Awaited T) (calls : List (ReorderCall T)) : Awaited T × ReorderTrace T :=
  calls.foldl (runCall capacity) (s, [])

variable {capacity cursor : Nat} {s : Awaited T}

theorem cursor_le_call (s : Awaited T) (c : ReorderCall T) : s.cursor ≤ (s.call capacity c).2.cursor := by
  cases c with
  | write data index =>
    simp only [call, write]
    split
    · exact Nat.le_refl _
    · split
      · exact Nat.le_refl _
      · split <;> exact Nat.le_refl _
  | consume =>
    simp only [call, consume]
    split
    · exact Nat.le_refl _
    · exact Nat.le_succ _

/-! ## In order, each once -/

/-- What has been delivered since the reader stood at `start` are the accepted writes of the
indices up to the cursor, in order; an accepted write that is not delivered is present. -/
structure InOrder (start : Nat) (s : Awaited T) (trace : ReorderTrace T) : Prop where
  cursor : s.cursor = start + trace.delivered.length
  delivered : ∀ k x, trace.delivered[k]? = some x → (x, start + k) ∈ trace.accepted
  present : ∀ i x, s.present i = some x → (x, i) ∈ trace.accepted
  accepted : ∀ p ∈ trace.accepted, p.2 < s.cursor ∨ s.present p.2 = some p.1
  once : (trace.accepted.map Prod.snd).Nodup

theorem inOrder_new (start : Nat) : InOrder start (new start : Awaited T) [] where
  cursor := rfl
  delivered := by simp [ReorderTrace.delivered]
  present := by simp [new]
  accepted := by simp [ReorderTrace.accepted]
  once := by simp [ReorderTrace.accepted]

/-- A call that neither writes nor delivers. -/
theorem InOrder.skip {trace : ReorderTrace T} (h : InOrder cursor s trace) {entry : ReorderCall T × ReorderResult T}
    (haccepted : ReorderTrace.accepted [entry] = []) (hdelivered : ReorderTrace.delivered [entry] = []) :
    InOrder cursor s (trace ++ [entry]) := by
  have haccepted : ReorderTrace.accepted (trace ++ [entry]) = trace.accepted := by
    rw [ReorderTrace.accepted, List.filterMap_append]
    exact (congrArg _ haccepted).trans (List.append_nil _)
  have hdelivered : ReorderTrace.delivered (trace ++ [entry]) = trace.delivered := by
    rw [ReorderTrace.delivered, List.filterMap_append]
    exact (congrArg _ hdelivered).trans (List.append_nil _)
  constructor
  · rw [hdelivered]; exact h.cursor
  · rw [hdelivered, haccepted]; exact h.delivered
  · rw [haccepted]; exact h.present
  · rw [haccepted]; exact h.accepted
  · rw [haccepted]; exact h.once

theorem InOrder.write {trace : ReorderTrace T} (h : InOrder cursor s trace) (data : T) (index : Nat) :
    InOrder cursor (s.call capacity (.write data index)).2
      (trace ++ [(.write data index, (s.call capacity (.write data index)).1)]) := by
  simp only [call, Awaited.write]
  split
  · exact h.skip rfl rfl
  · rename_i hnew
    obtain ⟨hahead, habsent⟩ := not_or.mp hnew
    have habsent := Option.not_isSome_iff_eq_none.mp habsent
    split
    · have haccepted : ReorderTrace.accepted (trace ++ [(.write data index, .wrote .success)]) =
          trace.accepted ++ [(data, index)] := List.filterMap_append
      have hdelivered : ReorderTrace.delivered (trace ++ [(.write data index, .wrote .success)]) =
          trace.delivered := by
        rw [ReorderTrace.delivered, List.filterMap_append]
        exact List.append_nil _
      have hfresh : ∀ p ∈ trace.accepted, p.2 ≠ index := by
        rintro p hp rfl
        rcases h.accepted p hp with hconsumed | hpresent
        · exact hahead hconsumed
        · rw [habsent] at hpresent
          cases hpresent
      constructor
      · rw [hdelivered]; exact h.cursor
      · rw [hdelivered, haccepted]
        exact fun k x hx => List.mem_append_left _ (h.delivered k x hx)
      · intro i x hx
        have hx : Function.update s.present index (some data) i = some x := hx
        rw [haccepted]
        by_cases hi : i = index
        · subst hi
          rw [Function.update_self] at hx
          cases hx
          exact List.mem_append_right _ (List.mem_singleton_self _)
        · rw [Function.update_of_ne hi] at hx
          exact List.mem_append_left _ (h.present i x hx)
      · intro p hp
        rw [haccepted] at hp
        show p.2 < s.cursor ∨ Function.update s.present index (some data) p.2 = some p.1
        rcases List.mem_append.mp hp with hold | hlast
        · rw [Function.update_of_ne (hfresh p hold)]
          exact h.accepted p hold
        · rw [List.mem_singleton.mp hlast]
          exact Or.inr (Function.update_self _ _ _)
      · rw [haccepted, List.map_append, List.nodup_append]
        refine ⟨h.once, List.nodup_singleton _, ?_⟩
        intro i hi j hj
        obtain ⟨p, hp, rfl⟩ := List.mem_map.mp hi
        rw [List.mem_singleton.mp hj]
        exact hfresh p hp
    · split <;> exact h.skip rfl rfl

theorem InOrder.consume {trace : ReorderTrace T} (h : InOrder cursor s trace) :
    InOrder cursor (s.call capacity .consume).2 (trace ++ [(.consume, (s.call capacity .consume).1)]) := by
  cases hpresent : s.present s.cursor with
  | none =>
    simp only [call, Awaited.consume, hpresent]
    exact h.skip rfl rfl
  | some data =>
    simp only [call, Awaited.consume, hpresent]
    have haccepted : ReorderTrace.accepted (trace ++ [(.consume, .consumed (some data))]) = trace.accepted := by
      rw [ReorderTrace.accepted, List.filterMap_append]
      exact List.append_nil _
    have hdelivered : ReorderTrace.delivered (trace ++ [(.consume, .consumed (some data))]) =
        trace.delivered ++ [data] := List.filterMap_append
    constructor
    · rw [hdelivered, List.length_append, List.length_singleton, ← Nat.add_assoc, ← h.cursor]
    · intro k x hx
      rw [haccepted]
      rw [hdelivered] at hx
      rcases Nat.lt_trichotomy k trace.delivered.length with hold | rfl | hbeyond
      · rw [List.getElem?_append_left hold] at hx
        exact h.delivered k x hx
      · rw [List.getElem?_concat_length] at hx
        cases hx
        rw [← h.cursor]
        exact h.present _ _ hpresent
      · rw [List.getElem?_eq_none (by rw [List.length_append, List.length_singleton]; omega)] at hx
        cases hx
    · intro i x hx
      have hx : Function.update s.present s.cursor none i = some x := hx
      rw [haccepted]
      by_cases hi : i = s.cursor
      · rw [hi, Function.update_self] at hx
        cases hx
      · rw [Function.update_of_ne hi] at hx
        exact h.present i x hx
    · intro p hp
      rw [haccepted] at hp
      by_cases hp2 : p.2 = s.cursor
      · exact Or.inl (Nat.lt_succ_of_le (Nat.le_of_eq hp2))
      · show p.2 < s.cursor + 1 ∨ Function.update s.present s.cursor none p.2 = some p.1
        rw [Function.update_of_ne hp2]
        exact (h.accepted p hp).imp_left Nat.lt_succ_of_lt
    · rw [haccepted]; exact h.once

theorem run_concat (s : Awaited T) (calls : List (ReorderCall T)) (c : ReorderCall T) :
    s.run capacity (calls ++ [c]) = runCall capacity (s.run capacity calls) c := by
  rw [run, List.foldl_append]
  rfl

theorem run_inOrder (capacity start : Nat) (calls : List (ReorderCall T)) :
    InOrder start ((new start : Awaited T).run capacity calls).1 ((new start).run capacity calls).2 := by
  induction calls using List.reverseRecOn with
  | nil => exact inOrder_new start
  | append_singleton calls c ih =>
    rw [run_concat]
    cases c with
    | write data index => exact ih.write data index
    | consume => exact ih.consume

end Awaited

/-! ## The buffer follows the partial map -/

namespace ReorderBuffer

variable {T : Type} {bits : Nat} {b : ReorderBuffer T bits} {s : Awaited T}

/-- What is present is ready in its slot, and nothing else is. -/
structure Shows (b : ReorderBuffer T bits) (s : Awaited T) : Prop where
  cursor : b.readerIndex = s.cursor
  slots : b.Intact fun i x => s.present i = some x
  present : ∀ i x, s.present i = some x → b.Written i ∧ (b.buffer (slotOf bits i)).data = x

theorem shows_new (memory : Nat → T) (start : UInt64) :
    (new memory start : ReorderBuffer T bits).Shows (Awaited.new start.toNat) where
  cursor := rfl
  slots := new_intact memory start
  present _ _ hx := by cases hx

/-- Within the window, the slot of an index is ready with its data or empty. -/
theorem Shows.slot (h : b.Shows s) {i : Nat} (hi : InWindow bits s.cursor i) :
    (∃ x, s.present i = some x ∧ (b.buffer (slotOf bits i)).status = .ready ∧
      (b.buffer (slotOf bits i)).data = x) ∨
    (s.present i = none ∧ (b.buffer (slotOf bits i)).status = .empty) := by
  rcases h.slots (slotOf bits i) with hempty | ⟨hready, j, hslot, hwindow, hj⟩
  · right
    refine ⟨?_, hempty⟩
    cases hx : s.present i with
    | none => rfl
    | some x =>
      have hready := (h.present i x hx).1.2
      rw [hempty] at hready
      cases hready
  · left
    rw [h.cursor] at hwindow
    obtain rfl := hwindow.eq_of_slotOf_eq hi hslot
    exact ⟨_, hj, hready, rfl⟩

/-- The reader's slot is ready exactly when the cursor's data is present. -/
theorem Shows.ready_iff (h : b.Shows s) :
    (b.buffer (slotOf bits s.cursor)).status = .ready ↔ (s.present s.cursor).isSome := by
  constructor
  · intro hready
    rcases h.slots (slotOf bits s.cursor) with hempty | ⟨-, j, hslot, hwindow, hj⟩
    · rw [hready] at hempty
      cases hempty
    · rw [h.cursor] at hwindow
      have hlower := hwindow.lower
      have hupper := hwindow.upper
      have hfits := hwindow.fits
      have hself : InWindow bits s.cursor s.cursor := ⟨Nat.le_refl _, by omega, by omega⟩
      obtain rfl := hwindow.eq_of_slotOf_eq hself hslot
      rw [hj]
      rfl
  · intro hpresent
    obtain ⟨x, hx⟩ := Option.isSome_iff_exists.mp hpresent
    exact (h.present _ x hx).1.2

theorem Shows.write (h : b.Shows s) (hfar : s.cursor + 2 ^ bits ≤ 2 ^ 64) (data : T) (index : Nat) :
    (b.tryWriteTo data index).1 = (s.write (2 ^ bits) data index).1 ∧
      (b.tryWriteTo data index).2.Shows (s.write (2 ^ bits) data index).2 := by
  have hcapacity : 0 < 2 ^ bits := Nat.two_pow_pos bits
  have hlimit : limit bits b.readerIndex = s.cursor + (2 ^ bits - 1) := by
    rw [limit, h.cursor]
    exact Nat.mod_eq_of_lt (by omega)
  have hinside : ∀ x, s.present index = some x → InWindow bits s.cursor index := fun x hx =>
    h.cursor ▸ (h.present index x hx).1.1
  by_cases hahead : s.cursor + (2 ^ bits - 1) ≤ index
  · have habsent : s.present index = none := by
      cases hx : s.present index with
      | none => rfl
      | some x =>
        have := (hinside x hx).upper
        omega
    have hnew : ¬(index < s.cursor ∨ (s.present index).isSome) := by
      rw [habsent]
      simp only [Option.isSome_none, Bool.false_eq_true, or_false]
      omega
    have hready := h.ready_iff
    rw [tryWriteTo_ahead data (hlimit ▸ hahead), Awaited.write, if_neg hnew, if_neg (by omega), tooFarAhead,
      h.cursor]
    by_cases hpresent : (s.present s.cursor).isSome
    · rw [if_pos hpresent, if_pos (hready.mpr hpresent)]
      exact ⟨rfl, h⟩
    · rw [if_neg hpresent, if_neg fun hslot => hpresent (hready.mp hslot)]
      exact ⟨rfl, h⟩
  · have hahead' : ¬ limit bits b.readerIndex ≤ index := by rw [hlimit]; exact hahead
    by_cases hold : index < s.cursor
    · rw [tryWriteTo_old data hahead' (h.cursor ▸ hold), Awaited.write, if_pos (Or.inl hold)]
      exact ⟨rfl, h⟩
    · have hwindow : InWindow bits s.cursor index := ⟨by omega, by omega, by omega⟩
      have hold' : ¬ index < b.readerIndex := by rw [h.cursor]; exact hold
      rcases h.slot hwindow with ⟨x, hx, hready, -⟩ | ⟨habsent, hempty⟩
      · rw [tryWriteTo_taken data hahead' hold' hready, Awaited.write, if_pos (Or.inr (by rw [hx]; rfl))]
        exact ⟨rfl, h⟩
      · have hnew : ¬(index < s.cursor ∨ (s.present index).isSome) := by
          rw [habsent]
          simpa using Nat.le_of_not_lt hold
        rw [tryWriteTo_free data hahead' hold' hempty, Awaited.write, if_neg hnew, if_pos (by omega)]
        refine ⟨rfl, h.cursor, ?_, ?_⟩
        · intro slot
          by_cases hslot : slot = slotOf bits index
          · subst hslot
            refine Or.inr ⟨by simp, index, rfl, h.cursor ▸ hwindow, ?_⟩
            simp
          · rcases h.slots slot with hslotEmpty | ⟨hslotReady, j, hj, hjWindow, hjPresent⟩
            · exact Or.inl (by simpa [hslot] using hslotEmpty)
            · refine Or.inr ⟨by simpa [hslot] using hslotReady, j, hj, hjWindow, ?_⟩
              have hne : j ≠ index := fun heq => hslot (heq ▸ hj.symm)
              simpa [hslot, hne] using hjPresent
        · intro i x hx
          have hx : Function.update s.present index (some data) i = some x := hx
          by_cases hi : i = index
          · subst hi
            rw [Function.update_self] at hx
            cases hx
            exact ⟨⟨h.cursor ▸ hwindow, by simp⟩, by simp⟩
          · rw [Function.update_of_ne hi] at hx
            obtain ⟨⟨hiWindow, hiReady⟩, hiData⟩ := h.present i x hx
            have hslot : slotOf bits i ≠ slotOf bits index := fun hslot =>
              hi ((h.cursor ▸ hiWindow).eq_of_slotOf_eq hwindow hslot)
            exact ⟨⟨hiWindow, by simpa [hslot] using hiReady⟩, by simpa [hslot] using hiData⟩

theorem Shows.consume (h : b.Shows s) :
    b.tryConsumeNext.1 = s.consume.1 ∧ b.tryConsumeNext.2.Shows s.consume.2 := by
  have hready := h.ready_iff
  cases hpresent : s.present s.cursor with
  | none =>
    have hslot : (b.buffer (slotOf bits s.cursor)).status ≠ .ready := by
      intro hslot
      have := hready.mp hslot
      rw [hpresent] at this
      cases this
    rw [Awaited.consume, tryConsumeNext, h.cursor]
    simp only [hpresent, if_pos hslot]
    exact ⟨trivial, h⟩
  | some x =>
    obtain ⟨⟨hwindow, hslot⟩, hdata⟩ := h.present _ x hpresent
    rw [h.cursor] at hwindow
    have hfits := hwindow.fits
    have hadvance : b.advance.readerIndex = s.cursor + 1 := by
      rw [advance, h.cursor]
      exact Nat.mod_eq_of_lt hfits
    rw [Awaited.consume, tryConsumeNext, h.cursor]
    simp only [hpresent, hslot, ne_eq, not_true_eq_false, if_false]
    refine ⟨congrArg some hdata, by rw [setStatus_readerIndex, hadvance], ?_, ?_⟩
    · intro slot
      by_cases heq : slot = slotOf bits s.cursor
      · exact Or.inl (by simp [heq])
      · rcases h.slots slot with hempty | ⟨hslotReady, j, hj, hjWindow, hjPresent⟩
        · exact Or.inl (by simpa [heq] using hempty)
        · rw [h.cursor] at hjWindow
          have hne : j ≠ s.cursor := fun hjs => heq (by rw [← hj, hjs])
          refine Or.inr ⟨by simpa [heq] using hslotReady, j, hj, ?_, by simpa [hne] using hjPresent⟩
          rw [setStatus_readerIndex, hadvance]
          exact hjWindow.succ (by rw [hj]; exact heq)
    · intro i y hy
      have hy : Function.update s.present s.cursor none i = some y := hy
      by_cases hi : i = s.cursor
      · rw [hi, Function.update_self] at hy
        cases hy
      · rw [Function.update_of_ne hi] at hy
        obtain ⟨⟨hiWindow, hiReady⟩, hiData⟩ := h.present i y hy
        rw [h.cursor] at hiWindow
        have hne : slotOf bits i ≠ slotOf bits s.cursor := fun heq => hi (hiWindow.eq_of_slotOf_eq hwindow heq)
        refine ⟨⟨?_, by simpa [hne] using hiReady⟩, by simpa [hne] using hiData⟩
        rw [setStatus_readerIndex, hadvance]
        exact hiWindow.succ hne

theorem Shows.call (h : b.Shows s) (hfar : s.cursor + 2 ^ bits ≤ 2 ^ 64) (c : ReorderCall T) :
    (b.call c).1 = (s.call (2 ^ bits) c).1 ∧ (b.call c).2.Shows (s.call (2 ^ bits) c).2 := by
  cases c with
  | write data index =>
    obtain ⟨hresult, hshows⟩ := h.write hfar data index
    exact ⟨congrArg _ hresult, hshows⟩
  | consume =>
    obtain ⟨hresult, hshows⟩ := h.consume
    exact ⟨congrArg _ hresult, hshows⟩

theorem run_concat (b : ReorderBuffer T bits) (calls : List (ReorderCall T)) (c : ReorderCall T) :
    b.run (calls ++ [c]) = runCall (b.run calls) c := by
  rw [run, List.foldl_append]
  rfl

theorem Shows.run (h : b.Shows s) (calls : List (ReorderCall T))
    (hfar : (s.run (2 ^ bits) calls).1.cursor + 2 ^ bits ≤ 2 ^ 64) :
    (b.run calls).2 = (s.run (2 ^ bits) calls).2 ∧ (b.run calls).1.Shows (s.run (2 ^ bits) calls).1 := by
  induction calls using List.reverseRecOn with
  | nil => exact ⟨rfl, h⟩
  | append_singleton calls c ih =>
    rw [Awaited.run_concat] at hfar
    have hle : (s.run (2 ^ bits) calls).1.cursor ≤ (Awaited.runCall (2 ^ bits) (s.run (2 ^ bits) calls) c).1.cursor :=
      Awaited.cursor_le_call _ c
    obtain ⟨htrace, hshows⟩ := ih (by omega)
    obtain ⟨hresult, hafter⟩ := hshows.call (by omega) c
    rw [run_concat, Awaited.run_concat]
    refine ⟨?_, hafter⟩
    simp only [runCall, Awaited.runCall, htrace, hresult]

/-- Whatever the order, distance and repetition of the writes, every call returns what the
partial map returns, and the reader gets the accepted writes in the order of their indices,
each once. -/
theorem calls_refine_partial_map (memory : Nat → T) (start : UInt64) (calls : List (ReorderCall T))
    (hfar : ((Awaited.new start.toNat).run (2 ^ bits) calls).1.cursor + 2 ^ bits ≤ 2 ^ 64) :
    ((new memory start : ReorderBuffer T bits).run calls).2 =
        ((Awaited.new start.toNat).run (2 ^ bits) calls).2 ∧
      (∀ k x, ((new memory start : ReorderBuffer T bits).run calls).2.delivered[k]? = some x →
        (x, start.toNat + k) ∈ ((new memory start : ReorderBuffer T bits).run calls).2.accepted) ∧
      (((new memory start : ReorderBuffer T bits).run calls).2.accepted.map Prod.snd).Nodup := by
  obtain ⟨htrace, -⟩ := (@shows_new _ bits memory start).run calls hfar
  have hinOrder := Awaited.run_inOrder (2 ^ bits) start.toNat calls
  rw [htrace]
  exact ⟨rfl, hinOrder.delivered, hinOrder.once⟩

end ReorderBuffer

/-- Four slots: writes out of order, one again, one too far ahead before and after the reader
could go on, and one into a slot that was used before. -/
def shuffledCalls : List (ReorderCall Nat) :=
  [.write 12 2, .consume, .write 14 4, .write 11 1, .write 21 1, .write 14 4, .consume, .write 14 4, .consume,
    .consume, .write 11 1]

theorem calls_refine_partial_map_shuffledCalls :
    let run := (ReorderBuffer.new (fun _ => 0) 1 : ReorderBuffer Nat 2).run shuffledCalls
    run.2.map Prod.snd = [.wrote .success, .consumed none, .wrote .likelySlowWriter, .wrote .success,
      .wrote .alreadyWritten, .wrote .likelySlowReader, .consumed (some 11), .wrote .success,
      .consumed (some 12), .consumed none, .wrote .alreadyWritten] ∧
    run.2 = ((Awaited.new 1).run 4 shuffledCalls).2 ∧
    (∀ k x, run.2.delivered[k]? = some x → (x, 1 + k) ∈ run.2.accepted) ∧
    (run.2.accepted.map Prod.snd).Nodup :=
  ⟨by decide, ReorderBuffer.calls_refine_partial_map (fun _ => 0) 1 shuffledCalls (by decide)⟩

end HftPipeline
