import Mathlib

/-!
# Optimistic reads of a versioned cell

One writer locks a cell, changes its data and unlocks it with a version it has not used
before. A reader samples the version, copies the data and samples the version again;
it keeps the copy only if both samples agree. `Is v x` says that `x` is the value the
writer stored under version `v`, and `next` is the version it will use next.
-/
namespace VersionedCell

/-- The version is `none` while the cell is locked. -/
structure Cell (T : Type) where
  version : Option Nat
  data : T

variable {T : Type} {Is Is' : Nat → T → Prop} {next v : Nat} {c : Cell T} {item : T}

/-- An unlocked cell shows an old version and its value. -/
def Shows (Is : Nat → T → Prop) (next : Nat) (c : Cell T) : Prop :=
  ∀ v, c.version = some v → v < next ∧ Is v c.data

/-- A copy taken after a sample of `v` is right as long as the cell still has that version. -/
def Holds (Is : Nat → T → Prop) (next : Nat) (c : Cell T) (v : Nat) (item : T) : Prop :=
  v < next ∧ (c.version = some v → Is v item)

/-- What was written under a number stays so when more is written. -/
theorem getElem?_of_prefix {items items' : List T} (h : items <+: items') {i : Nat} {x : T}
    (hx : items[i]? = some x) : items'[i]? = some x := by
  obtain ⟨hlt, rfl⟩ := List.getElem?_eq_some_iff.mp hx
  exact List.prefix_iff_getElem?.mp h i hlt

theorem Shows.mono (h : Shows Is next c) (himp : ∀ v x, Is v x → Is' v x) : Shows Is' next c := by
  intro v hv
  obtain ⟨hlt, hvalue⟩ := h v hv
  exact ⟨hlt, himp v _ hvalue⟩

theorem Shows.of_locked (h : c.version = none) : Shows Is next c := by
  intro v hv
  rw [h] at hv
  cases hv

/-- Unlocking with the next version. -/
theorem Shows.release (h : Is next c.data) (hversion : c.version = some next) : Shows Is (next + 1) c := by
  intro v hv
  rw [hversion] at hv
  cases hv
  exact ⟨Nat.lt_succ_self next, h⟩

theorem Shows.later (h : Shows Is next c) : Shows Is (next + 1) c := by
  intro v hv
  obtain ⟨hlt, hvalue⟩ := h v hv
  exact ⟨Nat.lt_succ_of_lt hlt, hvalue⟩

theorem Shows.copy (h : Shows Is next c) (hv : v < next) : Holds Is next c v c.data :=
  ⟨hv, fun hversion => (h v hversion).2⟩

theorem Holds.mono (h : Holds Is next c v item) (himp : ∀ v x, Is v x → Is' v x) : Holds Is' next c v item :=
  ⟨h.1, fun hversion => himp v item (h.2 hversion)⟩

/-- A cell that is locked or shows a version at least `next` refutes every old sample. -/
theorem Holds.of_fresh {c' : Cell T} (h : Holds Is next c v item) {next' : Nat} (hnext : next ≤ next')
    (hfresh : ∀ w, c'.version = some w → next ≤ w) : Holds Is next' c' v item := by
  refine ⟨Nat.lt_of_lt_of_le h.1 hnext, fun hversion => ?_⟩
  have := hfresh v hversion
  have := h.1
  omega

theorem Holds.of_version_eq {c' : Cell T} (h : Holds Is next c v item) {next' : Nat} (hnext : next ≤ next')
    (hversion : c'.version = c.version) : Holds Is next' c' v item :=
  ⟨Nat.lt_of_lt_of_le h.1 hnext, fun hv => h.2 (hversion ▸ hv)⟩

end VersionedCell
