import HftPipeline.CircularCache

/-!
# What the cache holds

The cache between calls, after any number of puts. It is for looking up the last
`CAPACITY` items by their index, and it does so for every index once one item has been put.
The sequence word zero of an empty cache is a valid index.
-/
namespace HftPipeline

/-- Looking up an index among `items`, of which the last `capacity` are kept. -/
def lookupItem {T : Type} (capacity : Nat) (items : List T) (index : Nat) : Except CacheError T :=
  match items[index]? with
  | none => .error .dataDoesNotExist
  | some item => if index + capacity < items.length then .error .dataTooOld else .ok item

namespace CircularCache

variable {T : Type} {bits : Nat} {c : CircularCache T bits} {items : List T}

/-- The slot has the item of index `v`, the last one put into it. -/
structure HoldsItem (c : CircularCache T bits) (items : List T) (slot v : Nat) : Prop where
  put : v < items.length
  last : items.length ≤ v + 2 ^ bits
  slot_eq : slotOf bits v = slot
  sequence : (c.sequence slot).toNat = v
  buffer : items[v]? = some (c.buffer slot)

/-- No item was put into the slot. -/
structure Unused (c : CircularCache T bits) (items : List T) (slot : Nat) : Prop where
  unput : ∀ v < items.length, slotOf bits v ≠ slot
  sequence : c.sequence slot = 0

structure Filled (c : CircularCache T bits) (items : List T) : Prop where
  writeIndex : c.writeIndex.toNat = items.length
  slots : ∀ slot, (∃ v, c.HoldsItem items slot v) ∨ c.Unused items slot

theorem filled_new (memory : Nat → T) : (new memory : CircularCache T bits).Filled [] where
  writeIndex := rfl
  slots _ := Or.inr ⟨nofun, rfl⟩

theorem putItem_sequence (c : CircularCache T bits) (item : T) :
    (c.putItem item).sequence =
      Function.update c.sequence (slotOf bits c.writeIndex.toNat) c.writeIndex.toUInt32 :=
  Function.update_idem _ _ _

/-- One put: its slot has the new item, and the others keep what they had. -/
theorem Filled.putItem (h : c.Filled items) (hbound : items.length < 2 ^ 32 - 1) (item : T) :
    (c.putItem item).Filled (items ++ [item]) := by
  have hlength : (items ++ [item]).length = items.length + 1 := List.length_append
  have hcapacity : 0 < 2 ^ bits := Nat.two_pow_pos bits
  have hword : c.writeIndex.toUInt32.toNat = items.length := by
    rw [UInt64.toNat_toUInt32, h.writeIndex]
    exact Nat.mod_eq_of_lt (by omega)
  constructor
  · show (c.writeIndex + 1).toNat = _
    rw [UInt64.toNat_add, UInt64.toNat_one, h.writeIndex, hlength]
    omega
  · intro slot
    by_cases hslot : slot = slotOf bits items.length
    · subst hslot
      refine Or.inl ⟨items.length, by omega, by omega, rfl, ?_, ?_⟩
      · rw [putItem_sequence, h.writeIndex, Function.update_self, hword]
      · rw [List.getElem?_concat_length, CircularCache.putItem]
        simp only [setBuffer, setSequence, h.writeIndex, Function.update_self]
    · have hsequence : (c.putItem item).sequence slot = c.sequence slot := by
        rw [putItem_sequence, h.writeIndex, Function.update_of_ne hslot]
      have hbuffer : (c.putItem item).buffer slot = c.buffer slot := by
        simp only [CircularCache.putItem, setBuffer, setSequence, h.writeIndex, Function.update_of_ne hslot]
      rcases h.slots slot with ⟨v, hv⟩ | hunused
      · have hput := hv.put
        have hlast := hv.last
        -- The put a lap after `v` would be into this slot.
        have hlap : items.length ≠ v + 2 ^ bits := by
          intro heq
          apply hslot
          rw [← hv.slot_eq, slotOf_eq_mod (by omega), slotOf_eq_mod (by omega), heq, Nat.add_mod_right]
        refine Or.inl ⟨v, by omega, by omega, hv.slot_eq, by rw [hsequence]; exact hv.sequence, ?_⟩
        rw [hbuffer, List.getElem?_append_left hput]
        exact hv.buffer
      · refine Or.inr ⟨?_, by rw [hsequence]; exact hunused.sequence⟩
        intro v hv
        rcases Nat.lt_succ_iff_lt_or_eq.mp (hlength ▸ hv) with hold | rfl
        · exact hunused.unput v hold
        · exact Ne.symm hslot

theorem filled_putItem (memory : Nat → T) (items : List T) (hbound : items.length < 2 ^ 32 - 1) :
    (items.foldl CircularCache.putItem (new memory : CircularCache T bits)).Filled items := by
  induction items using List.reverseRecOn with
  | nil => exact filled_new memory
  | append_singleton items item ih =>
    rw [List.length_append, List.length_singleton] at hbound
    rw [List.foldl_append, List.foldl_cons, List.foldl_nil]
    exact (ih (by omega)).putItem (by omega) item

/-! ## A lookup -/

theorem HoldsItem.tryGetItem (hbound : items.length < 2 ^ 32 - 1) {index : UInt32} {v : Nat}
    (hv : c.HoldsItem items (slotOf bits index.toNat) v) :
    c.tryGetItem index = lookupItem (2 ^ bits) items index.toNat := by
  have hput := hv.put
  have hlast := hv.last
  have hsequence := hv.sequence
  have hindex := index.toNat_lt
  have hunlocked : c.sequence (slotOf bits index.toNat) ≠ isLocked := by
    intro hlocked
    have : v = 2 ^ 32 - 1 := by rw [← hsequence, hlocked]; rfl
    omega
  rw [CircularCache.tryGetItem, lookupItem, judge, if_neg hunlocked]
  rcases Nat.lt_trichotomy v index.toNat with hbefore | heq | hafter
  · rw [if_pos (UInt32.lt_iff_toNat_lt.mpr (hsequence ▸ hbefore))]
    have hnone : items[index.toNat]? = none := by
      apply List.getElem?_eq_none
      by_contra hlt
      have := lap_of_slotOf_eq hindex hbefore hv.slot_eq.symm
      omega
    rw [hnone]
  · have hsame : c.sequence (slotOf bits index.toNat) = index := UInt32.toNat_inj.mp (hsequence.trans heq)
    have hitem := hv.buffer
    rw [heq] at hitem
    rw [hsame, if_neg (UInt32.lt_irrefl _), if_neg (UInt32.lt_irrefl _), hitem]
    exact (if_neg (by omega)).symm
  · have hlap := lap_of_slotOf_eq (by omega) hafter hv.slot_eq
    have hlt : index < c.sequence (slotOf bits index.toNat) := UInt32.lt_iff_toNat_lt.mpr (hsequence.symm ▸ hafter)
    rw [if_neg (UInt32.not_lt.mpr (UInt32.le_of_lt hlt)), if_pos hlt,
      List.getElem?_eq_getElem (by omega : index.toNat < items.length)]
    exact (if_pos (by omega)).symm

/-- A lookup in a slot that was not used yet misses, unless it asks for the index zero. -/
theorem Unused.tryGetItem {index : UInt32} (hunused : c.Unused items (slotOf bits index.toNat)) :
    lookupItem (2 ^ bits) items index.toNat = .error .dataDoesNotExist ∧
      c.tryGetItem index =
        if index = 0 then .ok (c.buffer (slotOf bits index.toNat)) else .error .dataDoesNotExist := by
  constructor
  · have hnone : items[index.toNat]? = none := by
      apply List.getElem?_eq_none
      by_contra hlt
      exact hunused.unput index.toNat (by omega) rfl
    rw [lookupItem, hnone]
  · rw [CircularCache.tryGetItem, hunused.sequence]
    by_cases hzero : index = 0
    · rw [if_pos hzero, hzero]
      rfl
    · have hpos : (0 : UInt32) < index := by
        rw [UInt32.lt_iff_toNat_lt]
        exact Nat.pos_of_ne_zero fun h => hzero (UInt32.toNat_inj.mp h)
      rw [if_neg hzero, judge, if_neg (by decide), if_pos hpos]

/-- The lookup of index zero in an empty cache is the only one that is wrong: it returns
what the memory of the first slot holds. -/
theorem tryGetItem_eq_lookupItem_iff (memory : Nat → T) (items : List T) (hbound : items.length < 2 ^ 32 - 1)
    (index : UInt32) :
    (items.foldl CircularCache.putItem (new memory : CircularCache T bits)).tryGetItem index =
        lookupItem (2 ^ bits) items index.toNat ↔ ¬(items = [] ∧ index = 0) := by
  have hfilled := @filled_putItem _ bits memory items hbound
  rcases hfilled.slots (slotOf bits index.toNat) with ⟨v, hv⟩ | hunused
  · refine iff_of_true (hv.tryGetItem hbound) ?_
    rintro ⟨rfl, -⟩
    exact absurd hv.put (Nat.not_lt_zero v)
  · obtain ⟨hspec, hget⟩ := hunused.tryGetItem
    rw [hspec, hget]
    by_cases hzero : index = 0
    · subst hzero
      rw [if_pos rfl]
      have hempty : items = [] := by
        by_contra hne
        exact hunused.unput 0 (List.length_pos_of_ne_nil hne) rfl
      exact iff_of_false nofun fun hneither => hneither ⟨hempty, rfl⟩
    · rw [if_neg hzero]
      exact iff_of_true rfl fun h => hzero h.2

end CircularCache

/-- Five puts into four slots, and the lookups that are too old, found and too early. -/
theorem tryGetItem_eq_lookupItem_iff_secondLap :
    let c : CircularCache Nat 2 := [10, 11, 12, 13, 14].foldl CircularCache.putItem (.new fun _ => 0)
    (c.tryGetItem 0 = lookupItem 4 [10, 11, 12, 13, 14] 0 ↔ ¬([10, 11, 12, 13, 14] = [] ∧ (0 : UInt32) = 0)) ∧
    [c.tryGetItem 0, c.tryGetItem 1, c.tryGetItem 4, c.tryGetItem 5] =
      [.error .dataTooOld, .ok 11, .ok 14, .error .dataDoesNotExist] :=
  ⟨CircularCache.tryGetItem_eq_lookupItem_iff (fun _ => 0) [10, 11, 12, 13, 14] (by decide) 0, by decide⟩

/-- An item that was never put is found. -/
theorem emptyCache_finds_item :
    (CircularCache.new (fun _ => 0) : CircularCache Nat 2).tryGetItem 0 = .ok 0 ∧
    (CircularCache.new (fun _ => 0) : CircularCache Nat 2).tryGetItem 0 ≠ lookupItem 4 [] 0 := by
  decide

end HftPipeline
