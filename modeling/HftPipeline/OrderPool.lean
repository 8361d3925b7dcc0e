import HftPipeline.Order

/-!
# The order pool

A fixed array of resting orders and a stack of the indices that are free. No
operation of the source checks its argument: an access outside the arrays is
undefined there and is `none` here.
-/
namespace HftPipeline

/-- `RestingOrder::NULL_INDEX`, the greatest 32-bit index. -/
def nullIndex : Nat := 2 ^ 32 - 1

structure RestingOrder where
  order : Order
  previous : Nat
  next : Nat
  deriving DecidableEq, Repr

instance : Inhabited RestingOrder := ⟨⟨default, nullIndex, nullIndex⟩⟩

structure OrderPool (capacity : Nat) where
  orders : Nat → RestingOrder
  freeStack : Nat → Nat
  topIndex : Nat

namespace OrderPool

variable {capacity : Nat}

/-- `std::ranges::iota(free_stack, 0)` with every slot free. -/
def init : OrderPool capacity := ⟨fun _ => default, fun i => i, capacity⟩

def allocate (p : OrderPool capacity) (order : RestingOrder) : Option (Nat × OrderPool capacity) :=
  if p.topIndex = 0 then none
  else
    let orderIdx := p.freeStack (p.topIndex - 1)
    some (orderIdx,
      { p with orders := Function.update p.orders orderIdx order, topIndex := p.topIndex - 1 })

def free (p : OrderPool capacity) (idx : Nat) : Option (OrderPool capacity) :=
  if p.topIndex < capacity then
    some { p with freeStack := Function.update p.freeStack p.topIndex idx, topIndex := p.topIndex + 1 }
  else none

def get (p : OrderPool capacity) (idx : Nat) : Option RestingOrder :=
  if idx < capacity then some (p.orders idx) else none

/-- An assignment to a member of the reference that `get` returns. -/
def modify (p : OrderPool capacity) (idx : Nat) (f : RestingOrder → RestingOrder) :
    Option (OrderPool capacity) :=
  if idx < capacity then some { p with orders := Function.update p.orders idx (f (p.orders idx)) }
  else none

theorem get_of_lt (p : OrderPool capacity) {idx : Nat} (h : idx < capacity) :
    p.get idx = some (p.orders idx) := if_pos h

theorem modify_of_lt (p : OrderPool capacity) {idx : Nat} (h : idx < capacity)
    (f : RestingOrder → RestingOrder) :
    p.modify idx f = some { p with orders := Function.update p.orders idx (f (p.orders idx)) } :=
  if_pos h

/-- The free stack below `top_index`, bottom first. -/
def freeList (p : OrderPool capacity) : List Nat := (List.range p.topIndex).map p.freeStack

/-- The free stack lists, without repetition, exactly the slots that are not `used`. -/
structure FreeExcept (p : OrderPool capacity) (used : List Nat) : Prop where
  nodup : p.freeList.Nodup
  mem_iff : ∀ i, i ∈ p.freeList ↔ i < capacity ∧ i ∉ used

/-- Different numbers below a bound are no more than the bound. -/
theorem length_le_of_nodup {l : List Nat} {n : Nat} (hnodup : l.Nodup) (hlt : ∀ i ∈ l, i < n) : l.length ≤ n := by
  have hsub : l ⊆ List.range n := fun i hi => List.mem_range.mpr (hlt i hi)
  have hlength := (hnodup.subperm hsub).length_le
  rw [List.length_range] at hlength
  exact hlength

theorem length_freeList (p : OrderPool capacity) : p.freeList.length = p.topIndex := by
  simp [freeList]

theorem freeExcept_init : (init : OrderPool capacity).FreeExcept [] where
  nodup := by simp [freeList, init, List.nodup_range]
  mem_iff := by simp [freeList, init]

theorem FreeExcept.congr {p p' : OrderPool capacity} {used used' : List Nat} (h : p.FreeExcept used)
    (hstack : p'.freeStack = p.freeStack) (htop : p'.topIndex = p.topIndex)
    (hused : ∀ i, i ∈ used' ↔ i ∈ used) : p'.FreeExcept used' where
  nodup := by simpa only [freeList, hstack, htop] using h.nodup
  mem_iff := fun i => by simpa only [freeList, hstack, htop, hused] using h.mem_iff i

/-- While fewer than `capacity` slots are in use `allocate` pops a slot that is not. -/
theorem FreeExcept.allocate_spec {p : OrderPool capacity} {used : List Nat} (h : p.FreeExcept used)
    (hroom : used.length < capacity) (order : RestingOrder) :
    ∃ i p', p.allocate order = some (i, p') ∧ i < capacity ∧ i ∉ used ∧
      p'.orders = Function.update p.orders i order ∧ p'.FreeExcept (i :: used) := by
  obtain ⟨j, hj, hjUsed⟩ : ∃ j < capacity, j ∉ used := by
    by_contra hall
    have hsub : Finset.range capacity ⊆ used.toFinset := by
      intro j hj
      by_contra hne
      exact hall ⟨j, Finset.mem_range.mp hj, fun hm => hne (List.mem_toFinset.mpr hm)⟩
    have hcard := Finset.card_le_card hsub
    have hlen := List.toFinset_card_le used
    rw [Finset.card_range] at hcard
    omega
  have hpos : p.topIndex ≠ 0 := by
    have hm := (h.mem_iff j).mpr ⟨hj, hjUsed⟩
    rw [← length_freeList]
    exact Nat.ne_of_gt (List.length_pos_of_mem hm)
  obtain ⟨t, ht⟩ := Nat.exists_eq_succ_of_ne_zero hpos
  have hlist : p.freeList = (List.range t).map p.freeStack ++ [p.freeStack t] := by
    simp [freeList, ht, List.range_succ]
  have hnodup := h.nodup
  rw [hlist, List.nodup_append] at hnodup
  have hi := (h.mem_iff (p.freeStack t)).mp (by simp [hlist])
  refine ⟨p.freeStack t, _, by simp [allocate, ht]; rfl, hi.1, hi.2, by simp, ?_, ?_⟩
  · simpa [freeList] using hnodup.1
  · intro i
    have hmem := h.mem_iff i
    simp only [hlist, List.mem_append, List.mem_singleton] at hmem
    have hlast := hnodup.2.2
    simp only [List.mem_cons, freeList, not_or]
    constructor
    · intro hm
      have hu := hmem.mp (Or.inl hm)
      exact ⟨hu.1, hlast i hm (p.freeStack t) (by simp), hu.2⟩
    · rintro ⟨hlt, hne, hu⟩
      rcases hmem.mpr ⟨hlt, hu⟩ with hm | hm
      · exact hm
      · exact absurd hm hne

/-- `free` pushes a used slot back, and there is always room for it. -/
theorem FreeExcept.free_spec {p : OrderPool capacity} {used used' : List Nat} {i : Nat}
    (h : p.FreeExcept used) (hi : i < capacity) (hused : i ∈ used)
    (hused' : ∀ j, j ∈ used' ↔ j ∈ used ∧ j ≠ i) :
    ∃ p', p.free i = some p' ∧ p'.orders = p.orders ∧ p'.FreeExcept used' := by
  have hout : i ∉ p.freeList := fun hm => ((h.mem_iff i).mp hm).2 hused
  have hroom : p.topIndex < capacity := by
    have hnodup : (i :: p.freeList).Nodup := List.nodup_cons.mpr ⟨hout, h.nodup⟩
    have hlength := length_le_of_nodup hnodup (List.forall_mem_cons.mpr ⟨hi, fun j hj => ((h.mem_iff j).mp hj).1⟩)
    rw [List.length_cons, length_freeList] at hlength
    omega
  have hlist : (List.range (p.topIndex + 1)).map (Function.update p.freeStack p.topIndex i) =
      p.freeList ++ [i] := by
    rw [List.range_succ, List.map_append, freeList]
    congr 1
    · apply List.map_congr_left
      intro j hj
      exact Function.update_of_ne (Nat.ne_of_lt (List.mem_range.mp hj)) _ _
    · simp
  refine ⟨_, if_pos hroom, rfl, ?_, ?_⟩
  · rw [freeList, hlist, List.nodup_append]
    refine ⟨h.nodup, by simp, ?_⟩
    intro a ha b hb he
    rw [List.mem_singleton] at hb
    exact hout (by rw [← hb, ← he]; exact ha)
  · intro j
    rw [freeList, hlist, List.mem_append, List.mem_singleton, h.mem_iff, hused']
    constructor
    · rintro (⟨hlt, hu⟩ | rfl)
      · exact ⟨hlt, fun hc => hu hc.1⟩
      · exact ⟨hi, fun hc => hc.2 rfl⟩
    · rintro ⟨hlt, hu⟩
      by_cases he : j = i
      · exact Or.inr he
      · exact Or.inl ⟨hlt, fun hm => hu ⟨hm, he⟩⟩

end OrderPool

end HftPipeline
