import Mathlib

/-!
# Open addressing with linear probing

`ClosedHashMap<Key, Value, CAPACITY>` as the header writes it. The capacity is
`2 ^ bits`, which is what its `static_assert` asks for, and the hash function is
an arbitrary function of the key. The arrays are functions on slot numbers; a
slot is read as a key and value only while it is `Occupied`.

A table in which every key can be reached from its hash is a finite map: `find`
reads it, `add`, `set` and `remove` change it at one key, and the tombstones
that `remove` leaves behind never matter.
-/
namespace HftPipeline

/-- `std::hash<Key>`, about which nothing is assumed. -/
class StdHash (Key : Type) where
  hash : Key → UInt64

inductive SlotStatus where
  | empty | tombstone | occupied
  deriving DecidableEq, Repr

structure ClosedHashMap (Key Value : Type) (bits : Nat) where
  slots : Nat → Key × Value
  occupied : Nat → SlotStatus

namespace ClosedHashMap

variable {Key Value : Type} {bits : Nat} [DecidableEq Key] [StdHash Key]

/-- The constructor marks every slot `Empty`; the pairs are left as they were. -/
def init [Inhabited Key] [Inhabited Value] : ClosedHashMap Key Value bits :=
  ⟨fun _ => default, fun _ => .empty⟩

def capacity (bits : Nat) : Nat := 2 ^ bits

def mask (bits : Nat) : Nat := capacity bits - 1

def hash (bits : Nat) (key : Key) : Nat := (StdHash.hash key).toNat &&& mask bits

/-- The loop of `probe_new`: `n` probes are left and `idx` is the next one. -/
def probeNewLoop (m : ClosedHashMap Key Value bits) : Nat → Nat → Option Nat
  | 0, _ => none
  | n + 1, idx =>
    if m.occupied idx ≠ .occupied then some idx
    else probeNewLoop m n ((idx + 1) &&& mask bits)

def probeNew (m : ClosedHashMap Key Value bits) (key : Key) : Option Nat :=
  m.probeNewLoop (capacity bits) (hash bits key)

/-- The loop of `probe_existing`; `none` is `NULL_INDEX`. -/
def probeExistingLoop (m : ClosedHashMap Key Value bits) (key : Key) : Nat → Nat → Option Nat
  | 0, _ => none
  | n + 1, idx =>
    if m.occupied idx = .empty then none
    else if m.occupied idx = .occupied ∧ (m.slots idx).1 = key then some idx
    else probeExistingLoop m key n ((idx + 1) &&& mask bits)

def probeExisting (m : ClosedHashMap Key Value bits) (key : Key) : Option Nat :=
  m.probeExistingLoop key (capacity bits) (hash bits key)

/-- `none` stands for the failed assertion "ClosedHashMap is full". -/
def add (m : ClosedHashMap Key Value bits) (key : Key) (value : Value) :
    Option (ClosedHashMap Key Value bits) :=
  (m.probeNew key).map fun idx =>
    ⟨Function.update m.slots idx (key, value), Function.update m.occupied idx .occupied⟩

def remove (m : ClosedHashMap Key Value bits) (key : Key) :
    Bool × ClosedHashMap Key Value bits :=
  match m.probeExisting key with
  | none => (false, m)
  | some idx => (true, { m with occupied := Function.update m.occupied idx .tombstone })

def find (m : ClosedHashMap Key Value bits) (key : Key) : Option Value :=
  (m.probeExisting key).map fun idx => (m.slots idx).2

/-- An assignment through the reference that `find` returns. -/
def set (m : ClosedHashMap Key Value bits) (key : Key) (value : Value) :
    ClosedHashMap Key Value bits :=
  match m.probeExisting key with
  | none => m
  | some idx => { m with slots := Function.update m.slots idx ((m.slots idx).1, value) }

theorem capacity_pos (bits : Nat) : 0 < capacity bits := Nat.two_pow_pos bits

theorem and_mask (n : Nat) : n &&& mask bits = n % capacity bits :=
  Nat.and_two_pow_sub_one_eq_mod n bits

omit [DecidableEq Key] in
theorem hash_lt (key : Key) : hash bits key < capacity bits := by
  rw [hash, and_mask]
  exact Nat.mod_lt _ (capacity_pos bits)

/-- The slot of the `i`-th probe that starts at slot `idx`. -/
def probe (bits idx i : Nat) : Nat := (idx + i) % capacity bits

theorem probe_lt (idx i : Nat) : probe bits idx i < capacity bits :=
  Nat.mod_lt _ (capacity_pos bits)

theorem probe_zero {idx : Nat} (h : idx < capacity bits) : probe bits idx 0 = idx :=
  Nat.mod_eq_of_lt h

theorem probe_succ (idx i : Nat) :
    probe bits ((idx + 1) &&& mask bits) i = probe bits idx (i + 1) := by
  rw [and_mask]
  simp only [probe, Nat.mod_add_mod]
  congr 1
  omega

theorem next_lt (idx : Nat) : (idx + 1) &&& mask bits < capacity bits := by
  rw [and_mask]
  exact Nat.mod_lt _ (capacity_pos bits)

/-- Every slot is reached by the probes of a full round. -/
theorem probe_surjective {idx j : Nat} (hidx : idx < capacity bits) (hj : j < capacity bits) :
    ∃ i < capacity bits, probe bits idx i = j := by
  by_cases h : idx ≤ j
  · refine ⟨j - idx, by omega, ?_⟩
    simp only [probe, Nat.add_sub_cancel' h, Nat.mod_eq_of_lt hj]
  · refine ⟨j + capacity bits - idx, by omega, ?_⟩
    have he : idx + (j + capacity bits - idx) = j + capacity bits := by omega
    simp only [probe, he, Nat.add_mod_right, Nat.mod_eq_of_lt hj]

section

omit [DecidableEq Key] [StdHash Key]

/-- `probe_new` stops at the first slot on its way that holds no pair. -/
theorem probeNewLoop_some (m : ClosedHashMap Key Value bits) (n idx r : Nat)
    (hidx : idx < capacity bits) (h : m.probeNewLoop n idx = some r) :
    ∃ i < n, probe bits idx i = r ∧ m.occupied r ≠ .occupied ∧
      ∀ j < i, m.occupied (probe bits idx j) = .occupied := by
  induction n generalizing idx with
  | zero => simp [probeNewLoop] at h
  | succ n ih =>
    simp only [probeNewLoop] at h
    split at h
    · next hfree =>
      cases h
      exact ⟨0, by omega, probe_zero hidx, hfree, fun j hj => absurd hj (Nat.not_lt_zero j)⟩
    · next hocc =>
      obtain ⟨i, hi, hr, hfree, hbefore⟩ := ih _ (next_lt idx) h
      rw [probe_succ] at hr
      refine ⟨i + 1, by omega, hr, hfree, ?_⟩
      intro j hj
      cases j with
      | zero => rw [probe_zero hidx]; simpa using hocc
      | succ j => rw [← probe_succ]; exact hbefore j (by omega)

theorem probeNewLoop_none (m : ClosedHashMap Key Value bits) (n idx : Nat)
    (hidx : idx < capacity bits) (h : m.probeNewLoop n idx = none) :
    ∀ i < n, m.occupied (probe bits idx i) = .occupied := by
  induction n generalizing idx with
  | zero => intro i hi; omega
  | succ n ih =>
    simp only [probeNewLoop] at h
    split at h
    · cases h
    · next hocc =>
      intro i hi
      cases i with
      | zero => rw [probe_zero hidx]; simpa using hocc
      | succ i => rw [← probe_succ]; exact ih _ (next_lt idx) h i (by omega)

end

section

omit [StdHash Key]

/-- Whatever slot `probe_existing` returns holds a pair with the key asked for. -/
theorem probeExistingLoop_sound (m : ClosedHashMap Key Value bits) (key : Key) (n idx r : Nat)
    (hidx : idx < capacity bits) (h : m.probeExistingLoop key n idx = some r) :
    r < capacity bits ∧ m.occupied r = .occupied ∧ (m.slots r).1 = key := by
  induction n generalizing idx with
  | zero => simp [probeExistingLoop] at h
  | succ n ih =>
    simp only [probeExistingLoop] at h
    split at h
    · cases h
    · split at h
      · next hhit => cases h; exact ⟨hidx, hhit⟩
      · exact ih _ (next_lt idx) h

/-- A pair with no `Empty` slot before it on the probe path is found. -/
theorem probeExistingLoop_complete (m : ClosedHashMap Key Value bits) (key : Key) (n idx d : Nat)
    (hidx : idx < capacity bits) (hd : d < n)
    (hocc : m.occupied (probe bits idx d) = .occupied) (hkey : (m.slots (probe bits idx d)).1 = key)
    (hpath : ∀ j < d, m.occupied (probe bits idx j) ≠ .empty) :
    ∃ r, m.probeExistingLoop key n idx = some r := by
  induction n generalizing idx d with
  | zero => omega
  | succ n ih =>
    simp only [probeExistingLoop]
    cases d with
    | zero =>
      rw [probe_zero hidx] at hocc hkey
      exact ⟨idx, by simp [hocc, hkey]⟩
    | succ d =>
      have hne := hpath 0 (by omega)
      rw [probe_zero hidx] at hne
      rw [if_neg hne]
      split
      · exact ⟨idx, rfl⟩
      · rw [← probe_succ] at hocc hkey
        refine ih _ d (next_lt idx) (by omega) hocc hkey ?_
        intro j hj
        rw [probe_succ]
        exact hpath (j + 1) (by omega)

end

/-- The table holds the pair `(key, value)` in slot `idx`. -/
def HoldsAt (m : ClosedHashMap Key Value bits) (idx : Nat) (key : Key) (value : Value) : Prop :=
  idx < capacity bits ∧ m.occupied idx = .occupied ∧ m.slots idx = (key, value)

/-- What every operation keeps: no `Empty` slot lies between a key's hash and the
key, and no key is stored twice. -/
structure Wf (m : ClosedHashMap Key Value bits) : Prop where
  path : ∀ idx < capacity bits, m.occupied idx = .occupied →
    ∃ d < capacity bits, probe bits (hash bits (m.slots idx).1) d = idx ∧
      ∀ j < d, m.occupied (probe bits (hash bits (m.slots idx).1) j) ≠ .empty
  unique : ∀ idx < capacity bits, ∀ idx' < capacity bits,
    m.occupied idx = .occupied → m.occupied idx' = .occupied →
    (m.slots idx).1 = (m.slots idx').1 → idx = idx'

omit [DecidableEq Key] in
theorem wf_init [Inhabited Key] [Inhabited Value] : Wf (init : ClosedHashMap Key Value bits) where
  path := fun _ _ h => by simp [init] at h
  unique := fun _ _ _ _ h => by simp [init] at h

/-- In a well-formed table `probe_existing` decides whether the key is stored. -/
theorem Wf.probeExisting_iff {m : ClosedHashMap Key Value bits} (h : Wf m) (key : Key) (idx : Nat) :
    m.probeExisting key = some idx ↔
      idx < capacity bits ∧ m.occupied idx = .occupied ∧ (m.slots idx).1 = key := by
  constructor
  · exact probeExistingLoop_sound m key _ _ _ (hash_lt key)
  · rintro ⟨hidx, hocc, hkey⟩
    obtain ⟨d, hd, hpos, hpath⟩ := h.path idx hidx hocc
    rw [hkey] at hpos hpath
    obtain ⟨r, hr⟩ := probeExistingLoop_complete m key (capacity bits) (hash bits key) d (hash_lt key) hd
      (by rw [hpos]; exact hocc) (by rw [hpos]; exact hkey) hpath
    have hs := probeExistingLoop_sound m key _ _ _ (hash_lt key) hr
    have he := h.unique r hs.1 idx hidx hs.2.1 hocc (hs.2.2.trans hkey.symm)
    rw [probeExisting, hr, he]

theorem Wf.find_iff {m : ClosedHashMap Key Value bits} (h : Wf m) (key : Key) (value : Value) :
    m.find key = some value ↔ ∃ idx, m.HoldsAt idx key value := by
  simp only [find, Option.map_eq_some_iff, h.probeExisting_iff, HoldsAt]
  constructor
  · rintro ⟨idx, ⟨hidx, hocc, hkey⟩, hval⟩
    exact ⟨idx, hidx, hocc, by rw [← hkey, ← hval]⟩
  · rintro ⟨idx, hidx, hocc, hpair⟩
    exact ⟨idx, ⟨hidx, hocc, by rw [hpair]⟩, by rw [hpair]⟩

theorem find_none_iff (m : ClosedHashMap Key Value bits) (key : Key) :
    m.find key = none ↔ m.probeExisting key = none := by
  simp [find]

@[simp] theorem find_init [Inhabited Key] [Inhabited Value] (key : Key) :
    (init : ClosedHashMap Key Value bits).find key = none := by
  cases hf : (init : ClosedHashMap Key Value bits).find key with
  | none => rfl
  | some value =>
    obtain ⟨idx, -, hocc, -⟩ := (wf_init.find_iff key value).mp hf
    simp [init] at hocc

/-- Some slot is free for `add`. -/
def HasRoom (m : ClosedHashMap Key Value bits) : Prop :=
  ∃ idx < capacity bits, m.occupied idx ≠ .occupied

/-- A table that stores fewer keys than it has slots has room, tombstones or not. -/
theorem Wf.hasRoom {m : ClosedHashMap Key Value bits} (h : Wf m) (keys : Finset Key)
    (hkeys : ∀ key, m.find key ≠ none → key ∈ keys) (hcard : keys.card < capacity bits) :
    HasRoom m := by
  by_contra hfull
  have hocc : ∀ idx < capacity bits, m.occupied idx = .occupied := by
    intro idx hidx
    by_contra hne
    exact hfull ⟨idx, hidx, hne⟩
  have hmaps : ∀ idx ∈ Finset.range (capacity bits), (m.slots idx).1 ∈ keys := by
    intro idx hidx
    have hlt := Finset.mem_range.mp hidx
    apply hkeys
    have hf := (h.find_iff (m.slots idx).1 (m.slots idx).2).mpr ⟨idx, hlt, hocc idx hlt, rfl⟩
    simp [hf]
  have hinj : Set.InjOn (fun idx => (m.slots idx).1) (Finset.range (capacity bits)) := by
    intro a ha b hb hab
    have ha' : a < capacity bits := by simpa using ha
    have hb' : b < capacity bits := by simpa using hb
    exact h.unique a ha' b hb' (hocc a ha') (hocc b hb') hab
  have hle := Finset.card_le_card_of_injOn _ hmaps hinj
  rw [Finset.card_range] at hle
  omega

/-- The slots in use. -/
def occupiedSlots (m : ClosedHashMap Key Value bits) : Finset Nat :=
  (Finset.range (capacity bits)).filter fun idx => m.occupied idx = .occupied

/-- Every key that is stored has a slot of its own. -/
theorem Wf.card_le {m : ClosedHashMap Key Value bits} (h : Wf m) (keys : Finset Key)
    (hkeys : ∀ key ∈ keys, m.find key ≠ none) : keys.card ≤ m.occupiedSlots.card := by
  have hslot : ∀ key ∈ keys, ∃ idx, m.probeExisting key = some idx ∧
      idx < capacity bits ∧ m.occupied idx = .occupied ∧ (m.slots idx).1 = key := by
    intro key hkey
    have hne := hkeys key hkey
    rw [Ne, find_none_iff] at hne
    obtain ⟨idx, hidx⟩ := Option.ne_none_iff_exists'.mp hne
    exact ⟨idx, hidx, (h.probeExisting_iff key idx).mp hidx⟩
  apply Finset.card_le_card_of_injOn fun key => (m.probeExisting key).getD 0
  · intro key hkey
    obtain ⟨idx, hprobe, hlt, hocc, -⟩ := hslot key hkey
    simp [occupiedSlots, hprobe, hlt, hocc]
  · intro a ha b hb hab
    obtain ⟨i, hi, -, -, hkeyA⟩ := hslot a ha
    obtain ⟨j, hj, -, -, hkeyB⟩ := hslot b hb
    simp only [hi, hj, Option.getD_some] at hab
    rw [← hkeyA, hab, hkeyB]

section

omit [DecidableEq Key] [StdHash Key]

theorem card_occupiedSlots_le (m : ClosedHashMap Key Value bits) : m.occupiedSlots.card ≤ capacity bits := by
  have hle := Finset.card_filter_le (Finset.range (capacity bits)) fun idx => m.occupied idx = .occupied
  rwa [Finset.card_range] at hle

theorem HasRoom.card_occupiedSlots_lt {m : ClosedHashMap Key Value bits} (hroom : HasRoom m) :
    m.occupiedSlots.card < capacity bits := by
  obtain ⟨free, hfree, hunused⟩ := hroom
  have hlt : m.occupiedSlots.card < (Finset.range (capacity bits)).card := by
    apply Finset.card_lt_card
    refine ⟨Finset.filter_subset _ _, fun hall => hunused ?_⟩
    exact (Finset.mem_filter.mp (hall (Finset.mem_range.mpr hfree))).2
  rwa [Finset.card_range] at hlt

end

/-- What `add` leaves once a slot for the key is found. -/
def occupy (m : ClosedHashMap Key Value bits) (r : Nat) (key : Key) (value : Value) : ClosedHashMap Key Value bits :=
  ⟨Function.update m.slots r (key, value), Function.update m.occupied r .occupied⟩

section Occupy

variable {m : ClosedHashMap Key Value bits} {key : Key} {r : Nat}

theorem Wf.key_absent (h : Wf m) (habsent : m.find key = none) :
    ∀ idx < capacity bits, m.occupied idx = .occupied → (m.slots idx).1 ≠ key := by
  intro idx hidx hocc hkey
  have hsome := (h.find_iff key (m.slots idx).2).mpr ⟨idx, hidx, hocc, by rw [← hkey]⟩
  rw [habsent] at hsome
  cases hsome

/-- A slot only ever leaves `Empty`, so probe paths stay walkable. -/
theorem Wf.occupy (h : Wf m) (value : Value) (habsent : m.find key = none) {i : Nat} (hi : i < capacity bits)
    (hr : probe bits (hash bits key) i = r)
    (hbefore : ∀ j < i, m.occupied (probe bits (hash bits key) j) = .occupied) : Wf (m.occupy r key value) := by
  have hnokey := h.key_absent habsent
  have hstill : ∀ idx, m.occupied idx ≠ .empty → Function.update m.occupied r .occupied idx ≠ .empty := by
    intro idx hne
    by_cases he : idx = r
    · simp [he]
    · rwa [Function.update_of_ne he]
  constructor
  · intro idx hidx hocc
    by_cases he : idx = r
    · subst he
      refine ⟨i, hi, by simpa [ClosedHashMap.occupy] using hr, ?_⟩
      intro j hj
      apply hstill
      simp [ClosedHashMap.occupy, hbefore j hj]
    · simp only [ClosedHashMap.occupy, Function.update_of_ne he] at hocc ⊢
      obtain ⟨d, hd, hpos, hpath⟩ := h.path idx hidx hocc
      exact ⟨d, hd, hpos, fun j hj => hstill _ (hpath j hj)⟩
  · intro a ha b hb hocca hoccb hab
    by_cases hea : a = r <;> by_cases heb : b = r <;>
      simp only [ClosedHashMap.occupy, hea, heb, Function.update_self, Function.update_of_ne, ne_eq,
        not_false_eq_true] at hocca hoccb hab ⊢
    · exact absurd hab.symm (hnokey b hb hoccb)
    · exact absurd hab (hnokey a ha hocca)
    · exact h.unique a ha b hb hocca hoccb hab

theorem Wf.find_occupy (h : Wf m) (value : Value) (habsent : m.find key = none) (hrlt : r < capacity bits)
    (hfree : m.occupied r ≠ .occupied) (hwf : Wf (m.occupy r key value)) (k : Key) :
    (m.occupy r key value).find k = if k = key then some value else m.find k := by
  apply Option.ext
  intro v
  rw [hwf.find_iff]
  by_cases hk : k = key
  · subst hk
    simp only [HoldsAt, ClosedHashMap.occupy, ↓reduceIte, Option.some.injEq]
    constructor
    · rintro ⟨idx, hidx, hocc, hpair⟩
      by_cases he : idx = r
      · simpa [he] using hpair
      · simp only [Function.update_of_ne he] at hocc hpair
        exact absurd (by rw [hpair]) (h.key_absent habsent idx hidx hocc)
    · rintro rfl
      exact ⟨r, hrlt, by simp, by simp⟩
  · rw [if_neg hk, h.find_iff]
    constructor
    · rintro ⟨idx, hidx, hocc, hpair⟩
      by_cases he : idx = r
      · simp only [ClosedHashMap.occupy, he, Function.update_self, Prod.mk.injEq] at hpair
        exact absurd hpair.1.symm hk
      · exact ⟨idx, hidx, by simpa [ClosedHashMap.occupy, he] using hocc,
          by simpa [ClosedHashMap.occupy, he] using hpair⟩
    · rintro ⟨idx, hidx, hocc, hpair⟩
      have he : idx ≠ r := fun he => hfree (he ▸ hocc)
      exact ⟨idx, hidx, by simpa [ClosedHashMap.occupy, he] using hocc,
        by simpa [ClosedHashMap.occupy, he] using hpair⟩

end Occupy

/-- `add` of an absent key stores it and changes no other key. -/
theorem Wf.add_spec {m : ClosedHashMap Key Value bits} (h : Wf m) {key : Key} (value : Value)
    (habsent : m.find key = none) (hroom : HasRoom m) :
    ∃ m', m.add key value = some m' ∧ Wf m' ∧
      ∀ k, m'.find k = if k = key then some value else m.find k := by
  cases hp : m.probeNew key with
  | none =>
    obtain ⟨idx, hidx, hfree⟩ := hroom
    obtain ⟨i, hi, rfl⟩ := probe_surjective (hash_lt key) hidx
    exact absurd (probeNewLoop_none m _ _ (hash_lt key) hp i hi) hfree
  | some r =>
    obtain ⟨i, hi, hr, hfree, hbefore⟩ := probeNewLoop_some m _ _ _ (hash_lt key) hp
    have hrlt : r < capacity bits := hr ▸ probe_lt _ _
    have hwf := h.occupy value habsent hi hr hbefore
    exact ⟨m.occupy r key value, by simp [add, hp, ClosedHashMap.occupy], hwf,
      h.find_occupy value habsent hrlt hfree hwf⟩

/-- `remove` tells whether the key was stored and forgets exactly that key. -/
theorem Wf.remove_spec {m : ClosedHashMap Key Value bits} (h : Wf m) (key : Key) :
    Wf (m.remove key).2 ∧ ((m.remove key).1 = (m.find key).isSome) ∧
      ∀ k, (m.remove key).2.find k = if k = key then none else m.find k := by
  cases hp : m.probeExisting key with
  | none =>
    have hn : m.find key = none := (m.find_none_iff key).mpr hp
    simp only [remove, hp, hn, Option.isSome_none, true_and]
    refine ⟨h, fun k => ?_⟩
    split
    · next he => rw [he, hn]
    · rfl
  | some r =>
    obtain ⟨hr, hoccr, hkeyr⟩ := (h.probeExisting_iff key r).mp hp
    have hstill : ∀ idx, m.occupied idx ≠ .empty →
        Function.update m.occupied r .tombstone idx ≠ .empty := by
      intro idx hne
      by_cases he : idx = r
      · simp [he]
      · rwa [Function.update_of_ne he]
    have hback : ∀ idx, Function.update m.occupied r .tombstone idx = .occupied →
        idx ≠ r ∧ m.occupied idx = .occupied := by
      intro idx hocc
      by_cases he : idx = r
      · simp [he] at hocc
      · exact ⟨he, by simpa [he] using hocc⟩
    have hwf : Wf ({ m with occupied := Function.update m.occupied r .tombstone } :
        ClosedHashMap Key Value bits) := by
      constructor
      · intro idx hidx hocc
        obtain ⟨d, hd, hpos, hpath⟩ := h.path idx hidx (hback idx hocc).2
        exact ⟨d, hd, hpos, fun j hj => hstill _ (hpath j hj)⟩
      · intro a ha b hb hocca hoccb hab
        exact h.unique a ha b hb (hback a hocca).2 (hback b hoccb).2 hab
    have hsome : m.find key = some (m.slots r).2 := by simp [find, hp]
    simp only [remove, hp, hsome, Option.isSome_some, true_and]
    refine ⟨hwf, fun k => ?_⟩
    apply Option.ext
    intro v
    rw [hwf.find_iff]
    by_cases hk : k = key
    · subst hk
      simp only [↓reduceIte, reduceCtorEq, iff_false, not_exists]
      rintro idx ⟨hidx, hocc, hpair⟩
      obtain ⟨hne, hocc'⟩ := hback idx hocc
      have hkey : (m.slots idx).1 = k := congrArg Prod.fst hpair
      exact hne (h.unique idx hidx r hr hocc' hoccr (hkey.trans hkeyr.symm))
    · rw [if_neg hk, h.find_iff]
      constructor
      · rintro ⟨idx, hidx, hocc, hpair⟩
        exact ⟨idx, hidx, (hback idx hocc).2, hpair⟩
      · rintro ⟨idx, hidx, hocc, hpair⟩
        have he : idx ≠ r := by
          intro he
          subst he
          have hkey : (m.slots idx).1 = k := congrArg Prod.fst hpair
          exact hk (hkey.symm.trans hkeyr)
        exact ⟨idx, hidx, by simpa [he] using hocc, hpair⟩

/-- An assignment through a found reference changes the value of that key only. -/
theorem Wf.set_spec {m : ClosedHashMap Key Value bits} (h : Wf m) {key : Key} (value : Value)
    (hpresent : m.find key ≠ none) :
    Wf (m.set key value) ∧ ∀ k, (m.set key value).find k = if k = key then some value else m.find k := by
  cases hp : m.probeExisting key with
  | none => exact absurd ((m.find_none_iff key).mpr hp) hpresent
  | some r =>
    obtain ⟨hr, hoccr, hkeyr⟩ := (h.probeExisting_iff key r).mp hp
    have hkeys : ∀ idx, (Function.update m.slots r ((m.slots r).1, value) idx).1 = (m.slots idx).1 := by
      intro idx
      by_cases he : idx = r
      · simp [he]
      · simp [he]
    have hwf : Wf ({ m with slots := Function.update m.slots r ((m.slots r).1, value) } :
        ClosedHashMap Key Value bits) := by
      constructor
      · intro idx hidx hocc
        simp only [hkeys]
        exact h.path idx hidx hocc
      · intro a ha b hb hocca hoccb hab
        simp only [hkeys] at hab
        exact h.unique a ha b hb hocca hoccb hab
    simp only [set, hp]
    refine ⟨hwf, fun k => ?_⟩
    apply Option.ext
    intro v
    rw [hwf.find_iff]
    by_cases hk : k = key
    · subst hk
      simp only [HoldsAt, ↓reduceIte, Option.some.injEq]
      constructor
      · rintro ⟨idx, hidx, hocc, hpair⟩
        have hkey : (m.slots idx).1 = k := by rw [← hkeys idx, hpair]
        have he := h.unique idx hidx r hr hocc hoccr (hkey.trans hkeyr.symm)
        subst he
        simpa [hkeyr] using hpair
      · rintro rfl
        exact ⟨r, hr, hoccr, by simp [hkeyr]⟩
    · rw [if_neg hk, h.find_iff]
      have hne : ∀ idx, (m.slots idx).1 = k → idx ≠ r := by
        intro idx hkey he
        subst he
        exact hk (hkey.symm.trans hkeyr)
      constructor
      · rintro ⟨idx, hidx, hocc, hpair⟩
        have hkey := congrArg Prod.fst hpair
        simp only [hkeys] at hkey
        have he := hne idx hkey
        exact ⟨idx, hidx, hocc, by simpa [he] using hpair⟩
      · rintro ⟨idx, hidx, hocc, hpair⟩
        have he := hne idx (by rw [hpair])
        exact ⟨idx, hidx, hocc, by simpa [he] using hpair⟩

end ClosedHashMap

end HftPipeline
