import Mathlib

/-!
# Random draws

The random engine with its distributions, and `RandomContainer`: a bag of items from which
one is taken at a random index.
-/
namespace HftPipeline

/-- An engine and what the distributions of `<random>` draw from it. Every sequence of draws
within the ranges is the sequence of one of these. -/
structure RandomSource where
  State : Type
  real : State → ℚ × State
  uniform : Int → Int → State → Int × State
  real_mem : ∀ g, 0 ≤ (real g).1 ∧ (real g).1 < 1
  uniform_mem : ∀ (lo hi : Int) (g), lo ≤ hi → lo ≤ (uniform lo hi g).1 ∧ (uniform lo hi g).1 ≤ hi

/-- The slots of `buffer_` below `size_`. -/
structure RandomContainer (α : Type) (capacity : Nat) where
  items : List α
  size_le : items.length ≤ capacity

namespace RandomContainer

variable {α : Type} {capacity : Nat} {source : RandomSource}

def empty : RandomContainer α capacity := ⟨[], Nat.zero_le _⟩

def size (c : RandomContainer α capacity) : Nat := c.items.length

def isFull (c : RandomContainer α capacity) : Bool := c.size = capacity

def isEmpty (c : RandomContainer α capacity) : Bool := c.size = 0

def add (c : RandomContainer α capacity) (item : α) : Bool × RandomContainer α capacity :=
  if h : c.items.length < capacity then
    (true, ⟨c.items ++ [item], by rw [List.length_append]; exact h⟩)
  else (false, c)

/-- The last item takes the place of the one that is taken out. -/
def removeAt (c : RandomContainer α capacity) (index : Nat) (last : α) : RandomContainer α capacity :=
  ⟨(if index ≠ c.size - 1 then c.items.set index last else c.items).dropLast, by
    have hlength : (if index ≠ c.size - 1 then c.items.set index last else c.items).length = c.items.length := by
      split
      · exact List.length_set
      · rfl
    rw [List.length_dropLast, hlength]
    exact Nat.le_trans (Nat.sub_le _ _) c.size_le⟩

def removeRandom (c : RandomContainer α capacity) (g : source.State) :
    Option (α × RandomContainer α capacity × source.State) := do
  let last ← c.items.getLast?
  let (index, g) := source.uniform 0 (c.size - 1) g
  let item ← c.items[index.toNat]?
  return (item, c.removeAt index.toNat last, g)

theorem add_of_lt {c : RandomContainer α capacity} (h : c.size < capacity) (item : α) :
    (c.add item).1 = true ∧ (c.add item).2.items = c.items ++ [item] := by
  have hadd : c.add item = (true, ⟨c.items ++ [item], by rw [List.length_append]; exact h⟩) := dif_pos h
  rw [hadd]
  exact ⟨rfl, rfl⟩

theorem items_ne_nil (c : RandomContainer α capacity) (h : ¬ c.isEmpty = true) : c.items ≠ [] := by
  intro hnil
  rw [isEmpty, size, hnil] at h
  exact h rfl

/-- With the last item in the place of another, and without the last place. -/
theorem set_perm (items : List α) (last : α) {index : Nat} (hindex : index < items.length) :
    (items.get ⟨index, hindex⟩ :: items.set index last).Perm (last :: items) := by
  induction items generalizing index with
  | nil => cases hindex
  | cons x items ih =>
    cases index with
    | zero => exact List.Perm.swap last x items
    | succ index =>
      have hindex' : index < items.length := Nat.lt_of_succ_lt_succ hindex
      have htail := (ih hindex').cons x
      exact (List.Perm.swap _ _ _).trans (htail.trans (List.Perm.swap _ _ _))

theorem removeAt_perm {c : RandomContainer α capacity} {index : Nat} {item last : α}
    (hitem : c.items[index]? = some item) (hlast : c.items.getLast? = some last) :
    (item :: (c.removeAt index last).items).Perm c.items := by
  obtain ⟨front, hfront⟩ := List.getLast?_eq_some_iff.mp hlast
  obtain ⟨hindex, hget⟩ := List.getElem?_eq_some_iff.mp hitem
  have hsize : c.size = front.length + 1 := by
    rw [size, hfront, List.length_append]
    rfl
  by_cases hend : index = c.size - 1
  · have hlen : index = front.length := by omega
    have hsame : item = last := by
      rw [hfront, hlen, List.getElem?_concat_length, Option.some.injEq] at hitem
      exact hitem.symm
    have hitems : (c.removeAt index last).items = front := by
      show (if index ≠ c.size - 1 then c.items.set index last else c.items).dropLast = front
      rw [if_neg (not_not.mpr hend), hfront, List.dropLast_concat]
    rw [hitems, hsame, hfront]
    exact (List.perm_append_singleton last front).symm
  · have hlt : index < front.length := by
      have : index < c.size := hindex
      omega
    have hitems : (c.removeAt index last).items = front.set index last := by
      show (if index ≠ c.size - 1 then c.items.set index last else c.items).dropLast = _
      rw [if_pos hend, hfront, List.set_append_left _ _ hlt, List.dropLast_concat]
    have hitem' : front.get ⟨index, hlt⟩ = item := by
      rw [hfront, List.getElem?_append_left hlt, List.getElem?_eq_getElem hlt, Option.some.injEq] at hitem
      exact hitem
    rw [hitems, hfront, ← hitem']
    exact (set_perm front last hlt).trans (List.perm_append_singleton last front).symm

/-- Some item is taken out. -/
theorem removeRandom_spec (c : RandomContainer α capacity) (g : source.State) (h : c.items ≠ []) :
    ∃ item c' g', c.removeRandom g = some (item, c', g') ∧ (item :: c'.items).Perm c.items := by
  obtain ⟨last, hlast⟩ : ∃ last, c.items.getLast? = some last :=
    ⟨_, List.getLast?_eq_some_getLast h⟩
  have hpos : 0 < c.items.length := List.length_pos_of_ne_nil h
  have hrange := source.uniform_mem 0 (c.size - 1) g (by rw [size]; omega)
  have hindex : (source.uniform 0 (c.size - 1) g).1.toNat < c.items.length := by
    rw [size] at hrange ⊢
    omega
  refine ⟨c.items.get ⟨_, hindex⟩, c.removeAt (source.uniform 0 (c.size - 1) g).1.toNat last,
    (source.uniform 0 (c.size - 1) g).2, ?_, removeAt_perm (List.getElem?_eq_getElem hindex) hlast⟩
  rw [removeRandom, hlast]
  simp only [Option.bind_eq_bind, Option.bind_some, List.getElem?_eq_getElem hindex]
  rfl

end RandomContainer

end HftPipeline
